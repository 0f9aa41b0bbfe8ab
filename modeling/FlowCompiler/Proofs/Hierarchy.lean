import Mathlib.Data.List.Nodup
import Mathlib.Data.List.Perm.Subperm
import FlowCompiler.Analysis.World

/-!
# The hierarchy of classes

A class definition is made after that of its base, so that the way from a class to its root goes through
smaller and smaller numbers.  Then the bases of a class form a chain, and two classes that have a base in
common have a nearest one.
-/

namespace FlowCompiler.World

open List

variable {w : World}
variable {w' : World} {c k : ClassDefId}

/-- Every class has a greater number than its base. -/
def Ordered (w : World) : Prop := ∀ c b, (w.classDef c).base = some b → b < c

theorem Ordered.congr (ho : w.Ordered) (h : w'.classDefs = w.classDefs) : w'.Ordered := by
  intro c b hb
  rw [classDef, h] at hb
  exact ho c b hb

theorem le_of_base {c : Nat} {b : ClassDefId} (h : (w.classDef c).base = some b) : c ≤ w.classDefs.size := by
  rcases Nat.lt_or_ge w.classDefs.size c with hc | hc
  · rw [classDef, Array.getElem?_eq_none (by omega)] at h
    cases h
  · exact hc

theorem mroAux_eq (h : w.Ordered) {c : ClassDefId} {m n : Nat} (hm : c < m) (hn : c < n) : w.mroAux m c = w.mroAux n c := by
  induction m generalizing c n with
  | zero => exact absurd hm (Nat.not_lt_zero _)
  | succ m ih =>
    obtain ⟨n, rfl⟩ := Nat.exists_eq_succ_of_ne_zero (Nat.ne_zero_of_lt hn)
    unfold mroAux
    cases hb : (w.classDef c).base with
    | none => rfl
    | some b =>
      have hlt := h c b hb
      exact congrArg (c :: ·) (ih (Nat.lt_of_lt_of_le hlt (Nat.le_of_lt_succ hm)) (Nat.lt_of_lt_of_le hlt (Nat.le_of_lt_succ hn)))

theorem mro_eq (h : w.Ordered) (c : ClassDefId) : w.mro c = c :: match (w.classDef c).base with
    | some b => w.mro b
    | none => [] := by
  unfold mro
  rw [mroAux]
  cases hb : (w.classDef c).base with
  | none => rfl
  | some b =>
    have hlt := Nat.lt_of_lt_of_le (h c b hb) (le_of_base hb)
    exact congrArg (c :: ·) (mroAux_eq h hlt (Nat.lt_succ_of_lt hlt))

/-- What holds of a class when it holds of its base holds of every class. -/
theorem Ordered.induct (h : w.Ordered) {P : ClassDefId → Prop}
    (step : ∀ c, (∀ b, (w.classDef c).base = some b → P b) → P c) (c : ClassDefId) : P c := by
  induction c using Nat.strongRecOn with
  | _ c ih => exact step c fun b hb => ih b (h c b hb)

theorem self_mem_mro (c : ClassDefId) : c ∈ w.mro c := by
  unfold mro
  rw [mroAux]
  exact mem_cons_self

section

variable (h : w.Ordered)
include h

theorem mem_mro_iff : k ∈ w.mro c ↔ k = c ∨ ∃ b, (w.classDef c).base = some b ∧ k ∈ w.mro b := by
  rw [mro_eq h c]
  cases (w.classDef c).base <;> simp

theorem eq_mro_of_append {pre post : List ClassDefId} (he : w.mro c = pre ++ k :: post) : k :: post = w.mro k := by
  induction pre generalizing c with
  | nil =>
    rw [mro_eq h c, nil_append, List.cons.injEq] at he
    rw [← he.1, mro_eq h c, he.2]
  | cons x pre ih =>
    rw [mro_eq h c, cons_append, List.cons.injEq] at he
    cases hb : (w.classDef c).base with
    | none =>
      rw [hb] at he
      simp at he
    | some b =>
      rw [hb] at he
      exact ih he.2

theorem mem_mro_trans {c k j : ClassDefId} (hk : k ∈ w.mro c) (hj : j ∈ w.mro k) : j ∈ w.mro c := by
  obtain ⟨pre, post, he⟩ := append_of_mem hk
  rw [he, eq_mro_of_append h he]
  exact mem_append_right _ hj

theorem le_of_mem_mro (hk : k ∈ w.mro c) : k ≤ c := by
  induction c using h.induct with
  | step c ih =>
    rcases (mem_mro_iff h).1 hk with rfl | ⟨b, hb, hk⟩
    · exact Nat.le_refl k
    · exact Nat.le_trans (ih b hb hk) (Nat.le_of_lt (h c b hb))

theorem mem_mro_total {c k j : ClassDefId} (hk : k ∈ w.mro c) (hj : j ∈ w.mro c) : j ∈ w.mro k ∨ k ∈ w.mro j := by
  induction c using h.induct with
  | step c ih =>
    rcases (mem_mro_iff h).1 hk with rfl | ⟨b, hb, hkb⟩
    · exact .inl hj
    · rcases (mem_mro_iff h).1 hj with rfl | ⟨b', hb', hjb⟩
      · exact .inr hk
      · cases hb.symm.trans hb'
        exact ih b hb hkb hjb

theorem eq_of_mem_mro (hk : k ∈ w.mro c) (hc : c ∈ w.mro k) : k = c := Nat.le_antisymm (le_of_mem_mro h hk) (le_of_mem_mro h hc)

/-! ## The nearest common base -/

/-- The nearest common base is below every other one. -/
theorem commonBase?_eq_some_iff {a b k : ClassDefId} : w.commonBase? a b = some k ↔ ∀ j, j ∈ w.mro k ↔ j ∈ w.mro a ∧ j ∈ w.mro b := by
  constructor
  · intro hk
    obtain ⟨hb, pre, post, he, hpre⟩ := find?_eq_some_iff_append.1 hk
    have hmem : k ∈ w.mro a := he ▸ mem_append_right _ mem_cons_self
    have hb : k ∈ w.mro b := by simpa [isSubclass] using hb
    refine fun j => ⟨fun hj => ⟨mem_mro_trans h hmem hj, mem_mro_trans h hb hj⟩, fun ⟨hja, hjb⟩ => ?_⟩
    rw [he, mem_append] at hja
    rcases hja with hja | hja
    · have := hpre j hja
      simp [isSubclass, hjb] at this
    · exact eq_mro_of_append h he ▸ hja
  · intro hk
    obtain ⟨hka, hkb⟩ := (hk k).1 (self_mem_mro k)
    cases hc : w.commonBase? a b with
    | none =>
      have := find?_eq_none.1 hc k hka
      simp [isSubclass, hkb] at this
    | some m =>
      have hma := mem_of_find?_eq_some hc
      have hmb : m ∈ w.mro b := by simpa [isSubclass] using find?_some hc
      -- the first one that is found is below all others, so it is the same
      obtain ⟨-, pre, post, he, hpre⟩ := find?_eq_some_iff_append.1 hc
      have hkm : k ∈ w.mro m := by
        rw [he, mem_append] at hka
        rcases hka with hka | hka
        · have := hpre k hka
          simp [isSubclass, hkb] at this
        · exact eq_mro_of_append h he ▸ hka
      exact congrArg some (eq_of_mem_mro h ((hk m).2 ⟨hma, hmb⟩) hkm)

end

theorem commonBase?_eq_none_iff {a b : ClassDefId} : w.commonBase? a b = none ↔ ∀ j, j ∈ w.mro a → j ∉ w.mro b := by
  simp [commonBase?, isSubclass]

theorem commonBase?_self (h : w.Ordered) (a : ClassDefId) : w.commonBase? a a = some a := (commonBase?_eq_some_iff h).2 fun _ => (and_self_iff).symm

theorem commonBase?_comm (h : w.Ordered) (a b : ClassDefId) : w.commonBase? a b = w.commonBase? b a := by
  cases hab : w.commonBase? a b with
  | none => exact (commonBase?_eq_none_iff.2 fun j hb ha => commonBase?_eq_none_iff.1 hab j ha hb).symm
  | some k =>
    refine ((commonBase?_eq_some_iff h).2 fun j => ?_).symm
    rw [(commonBase?_eq_some_iff h).1 hab j, and_comm]

/-- Which of three classes are taken together first does not matter. -/
theorem commonBase?_assoc (h : w.Ordered) (a b c : ClassDefId) :
    (w.commonBase? a b).bind (w.commonBase? · c) = (w.commonBase? b c).bind (w.commonBase? a ·) := by
  cases hab : w.commonBase? a b with
  | none =>
    cases hbc : w.commonBase? b c with
    | none => rfl
    | some m =>
      refine (commonBase?_eq_none_iff.2 fun j ha hm => ?_).symm
      exact commonBase?_eq_none_iff.1 hab j ha (((commonBase?_eq_some_iff h).1 hbc j).1 hm).1
  | some k =>
    have hk := (commonBase?_eq_some_iff h).1 hab
    cases hbc : w.commonBase? b c with
    | none =>
      refine commonBase?_eq_none_iff.2 fun j hj hc => ?_
      exact commonBase?_eq_none_iff.1 hbc j ((hk j).1 hj).2 hc
    | some m =>
      have hm := (commonBase?_eq_some_iff h).1 hbc
      -- both sides are about the classes above all three
      have hsame (j : ClassDefId) : j ∈ w.mro k ∧ j ∈ w.mro c ↔ j ∈ w.mro a ∧ j ∈ w.mro m := by
        rw [hk, hm, and_assoc]
      change w.commonBase? k c = w.commonBase? a m
      cases hkc : w.commonBase? k c with
      | none =>
        refine (commonBase?_eq_none_iff.2 fun j ha hj => ?_).symm
        obtain ⟨hjk, hjc⟩ := (hsame j).2 ⟨ha, hj⟩
        exact commonBase?_eq_none_iff.1 hkc j hjk hjc
      | some l =>
        refine ((commonBase?_eq_some_iff h).2 fun j => ?_).symm
        rw [(commonBase?_eq_some_iff h).1 hkc j, hsame]

/-! ## States with the same classes -/

theorem mroAux_congr (h : ∀ c, (w'.classDef c).base = (w.classDef c).base) (n : Nat) (c : ClassDefId) : w'.mroAux n c = w.mroAux n c := by
  induction n generalizing c with
  | zero => rfl
  | succ n ih =>
    rw [mroAux, mroAux, h]
    cases (w.classDef c).base with
    | none => rfl
    | some b => exact congrArg (c :: ·) (ih b)

theorem mro_congr (hs : w'.classDefs.size = w.classDefs.size)
    (h : ∀ c, (w'.classDef c).base = (w.classDef c).base) (c : ClassDefId) : w'.mro c = w.mro c := by
  rw [mro, mro, hs, mroAux_congr h]

theorem commonBase?_congr (h : w'.classDefs = w.classDefs) (a b : ClassDefId) : w'.commonBase? a b = w.commonBase? a b := by
  have hm := mro_congr (congrArg Array.size h) fun c => by rw [classDef, classDef, h]
  simp only [commonBase?, isSubclass, hm]

end FlowCompiler.World

/-! ## Subclasses

Classes form trees: a class knows its base, and its base knows it.  The search for all subclasses goes through
such a tree level by level and has as many steps as there are classes; it finds every class that has the first
one on its way to the root, and each of them once. -/

namespace FlowCompiler.World

variable {w : World}

/-- Classes are numbered from one. -/
def Defined (w : World) (c : Nat) : Prop := 0 < c ∧ c ≤ w.classDefs.size

/-- A class is made after its base, which lists it once. -/
structure Tree (w : World) : Prop where
  base : ∀ {c b : Nat}, w.Defined c → (w.classDef c).base = some b → 0 < b ∧ b < c
  subs : ∀ {c c' : Nat}, w.Defined c → (c' ∈ (w.classDef c).subs ↔ w.Defined c' ∧ (w.classDef c').base = some c)
  nodup : ∀ {c : Nat}, w.Defined c → (w.classDef c).subs.Nodup

namespace Tree

theorem ordered (h : w.Tree) : w.Ordered := by
  intro c b hb
  have hle := le_of_base hb
  match c with
  | 0 =>
    -- no class has the number zero, which reads the first one
    have hone : (w.classDef 1).base = some b := hb
    exact absurd (h.base ⟨Nat.one_pos, le_of_base hone⟩ hone) (fun ⟨h₁, h₂⟩ => Nat.lt_irrefl _ (Nat.lt_of_lt_of_le h₂ h₁))
  | c + 1 => exact (h.base ⟨Nat.succ_pos c, hle⟩ hb).2

theorem defined_of_mem_mro (h : w.Tree) {c k : Nat} (hc : w.Defined c) (hk : k ∈ w.mro c) : w.Defined k := by
  induction c using h.ordered.induct with
  | step c ih =>
    rcases (mem_mro_iff h.ordered).1 hk with rfl | ⟨b, hb, hkb⟩
    · exact hc
    · have hlt := h.base hc hb
      exact ih b hb ⟨hlt.1, Nat.le_trans (Nat.le_of_lt hlt.2) hc.2⟩ hkb

theorem base_mem_mro (h : w.Tree) {c s : Nat} (hc : w.Defined c) (hs : s ∈ (w.classDef c).subs) : c ∈ w.mro s :=
  (mem_mro_iff h.ordered).2 (.inr ⟨c, ((h.subs hc).1 hs).2, self_mem_mro c⟩)

theorem lt_of_mem_subs (h : w.Tree) {c s : Nat} (hc : w.Defined c) (hs : s ∈ (w.classDef c).subs) : c < s := by
  obtain ⟨hd, hb⟩ := (h.subs hc).1 hs
  exact (h.base hd hb).2

theorem exists_sub (h : w.Tree) {c z : Nat} (hz : w.Defined z) (hc : c ∈ w.mro z) (hne : c ≠ z) : ∃ s ∈ (w.classDef c).subs, s ∈ w.mro z := by
  induction z using h.ordered.induct with
  | step z ih =>
    rcases (mem_mro_iff h.ordered).1 hc with rfl | ⟨b, hb, hcb⟩
    · exact absurd rfl hne
    · have hlt := h.base hz hb
      have hbd : w.Defined b := ⟨hlt.1, Nat.le_trans (Nat.le_of_lt hlt.2) hz.2⟩
      by_cases e : c = b
      · subst e
        exact ⟨z, (h.subs hbd).2 ⟨hz, hb⟩, self_mem_mro z⟩
      · obtain ⟨s, hs, hsb⟩ := ih b hb hbd hcb e
        exact ⟨s, hs, (mem_mro_iff h.ordered).2 (.inr ⟨b, hb, hsb⟩)⟩

/-! ### The search -/

/-- No class is below both. -/
def Apart (w : World) (x y : Nat) : Prop := ∀ z, x ∈ w.mro z → y ∉ w.mro z

theorem pairwise_subs (h : w.Tree) {c : Nat} (hc : w.Defined c) : (w.classDef c).subs.Pairwise (Apart w) := by
  refine List.Nodup.pairwise_of_forall_ne (h.nodup hc) fun s hs s' hs' hne z hz hz' => ?_
  -- one of them would be at or above their base
  have above {s s' : Nat} (hs : s ∈ (w.classDef c).subs) (hs' : s' ∈ (w.classDef c).subs) (hne : s ≠ s') : s' ∉ w.mro s := by
    intro hm
    rcases (mem_mro_iff h.ordered).1 hm with e | ⟨b, hb, hbm⟩
    · exact hne e.symm
    · cases hb.symm.trans ((h.subs hc).1 hs).2
      exact Nat.lt_irrefl _ (Nat.lt_of_lt_of_le (h.lt_of_mem_subs hc hs') (le_of_mem_mro h.ordered hbm))
  rcases mem_mro_total h.ordered hz hz' with hm | hm
  · exact above hs hs' hne hm
  · exact above hs' hs hne.symm hm

end Tree
end FlowCompiler.World
