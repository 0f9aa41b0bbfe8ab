import Mathlib.Data.List.Pairwise
import FlowCompiler.Lowering.Families
import FlowCompiler.Lowering.Object
import FlowCompiler.Proofs.Attributes.Trees
import FlowCompiler.Proofs.Lowering.Runs
import FlowCompiler.Proofs.Union.Order

/-!
# The numbers of classes

Before lowering, the classes of every tree are numbered on the way down, and each class keeps the range of the numbers
that it and the classes below it have got.  So the ranges of two classes are nested when one of them is below the other
one, and disjoint otherwise, and whether a class is a subclass of another one is seen from its number.
-/

namespace FlowCompiler

open List Nat Int

variable {c' lo' hi' : Nat}

namespace World

variable {w : World} {c d z : Nat} {cs cs' : List ClassDefId} {lo mid hi : Nat}

/-- A class with the range of its numbers. -/
abbrev ClassRange := ClassDefId × Nat × Nat

variable {x y : ClassRange} {rs rs' : List ClassRange}

/-- Of two ranges that are given one after the other, the second one is inside the first one when its class is below that
of the first, and after it when no class is below the other. -/
def Follows (w : World) (x y : ClassRange) : Prop :=
  (x.1 ≠ y.1 ∧ x.1 ∈ w.mro y.1 ∧ x.2.1 < y.2.1 ∧ y.2.2 ≤ x.2.2) ∨ (x.1 ∉ w.mro y.1 ∧ y.1 ∉ w.mro x.1 ∧ x.2.2 ≤ y.2.1)

/-- The ranges of some classes and of all classes below them, which take the numbers between two bounds. -/
structure Ranges (w : World) (cs : List ClassDefId) (lo hi : Nat) (rs : List ClassRange) : Prop where
  count : hi = lo + rs.length
  within : ∀ x ∈ rs, lo ≤ x.2.1 ∧ x.2.1 < x.2.2 ∧ x.2.2 ≤ hi
  mem : ∀ z, z ∈ rs.map Prod.fst ↔ w.Defined z ∧ ∃ c ∈ cs, c ∈ w.mro z
  follows : rs.Pairwise (Follows w)

namespace Ranges

theorem nil (w : World) (lo : Nat) : Ranges w [] lo lo [] := ⟨rfl, by simp, by simp, .nil⟩

theorem bounds (h : Ranges w cs lo hi rs) : lo ≤ hi := h.count ▸ Nat.le_add_right ..

theorem exists_root (h : Ranges w cs lo hi rs) (hx : x ∈ rs) : w.Defined x.1 ∧ ∃ c ∈ cs, c ∈ w.mro x.1 := (h.mem x.1).1 (mem_map_of_mem hx)

/-- Classes that have nothing in common are numbered one after the other. -/
theorem append (ho : w.Ordered) (h : Ranges w cs lo mid rs) (h' : Ranges w cs' mid hi rs')
    (hapart : ∀ c ∈ cs, ∀ c' ∈ cs', Tree.Apart w c c') : Ranges w (cs ++ cs') lo hi (rs ++ rs') := by
  refine ⟨?_, fun x hx => ?_, fun z => ?_, pairwise_append.2 ⟨h.follows, h'.follows, fun x hx y hy => .inr ?_⟩⟩
  · rw [h'.count, h.count, length_append, add_assoc]
  · rcases mem_append.1 hx with hx | hx
    · obtain ⟨h₁, h₂, h₃⟩ := h.within x hx
      exact ⟨h₁, h₂, le_trans h₃ h'.bounds⟩
    · obtain ⟨h₁, h₂, h₃⟩ := h'.within x hx
      exact ⟨le_trans h.bounds h₁, h₂, h₃⟩
  · simp only [map_append, mem_append, h.mem, h'.mem, or_and_right, exists_or, and_or_left]
  · obtain ⟨-, c, hc, hcx⟩ := h.exists_root hx
    obtain ⟨-, c', hc', hcy⟩ := h'.exists_root hy
    refine ⟨fun hxy => ?_, fun hyx => ?_, le_trans (h.within x hx).2.2 (h'.within y hy).1⟩
    · exact hapart c hc c' hc' y.1 (mem_mro_trans ho hxy hcx) hcy
    · exact hapart c hc c' hc' x.1 hcx (mem_mro_trans ho hyx hcy)

/-- A class comes before the classes below it, and its range goes around theirs. -/
theorem root (hw : w.Tree) (hc : w.Defined c) (h : Ranges w (w.classDef c).subs (lo + 1) hi rs) : Ranges w [c] lo hi ((c, lo, hi) :: rs) := by
  have hbelow {z : Nat} (hz : w.Defined z ∧ ∃ s ∈ (w.classDef c).subs, s ∈ w.mro z) : c ≠ z ∧ c ∈ w.mro z := by
    obtain ⟨-, s, hs, hsz⟩ := hz
    refine ⟨?_, mem_mro_trans hw.ordered hsz (hw.base_mem_mro hc hs)⟩
    rintro rfl
    exact lt_irrefl _ (lt_of_lt_of_le (hw.lt_of_mem_subs hc hs) (le_of_mem_mro hw.ordered hsz))
  refine ⟨?_, fun x hx => ?_, fun z => ?_, pairwise_cons.2 ⟨fun y hy => .inl ?_, h.follows⟩⟩
  · rw [h.count, length_cons, add_assoc, add_comm 1]
  · rcases mem_cons.1 hx with rfl | hx
    · exact ⟨le_refl _, h.bounds, le_refl _⟩
    · obtain ⟨h₁, h₂, h₃⟩ := h.within x hx
      exact ⟨le_of_succ_le h₁, h₂, h₃⟩
  · rw [map_cons, mem_cons, h.mem]
    simp only [mem_singleton, exists_eq_left]
    constructor
    · rintro (rfl | hz)
      · exact ⟨hc, self_mem_mro z⟩
      · exact ⟨hz.1, (hbelow hz).2⟩
    · rintro ⟨hz, hcz⟩
      by_cases e : c = z
      · exact .inl e.symm
      · exact .inr ⟨hz, hw.exists_sub hz hcz e⟩
  · obtain ⟨h₁, h₂, h₃⟩ := h.within y hy
    obtain ⟨hne, hmem⟩ := hbelow (h.exists_root hy)
    exact ⟨hne, hmem, h₁, h₃⟩

/-! ## What the ranges say -/

theorem nodup (h : Ranges w cs lo hi rs) : (rs.map Prod.fst).Nodup := by
  refine pairwise_map.2 (h.follows.imp fun {x y} hxy e => ?_)
  rcases hxy with ⟨hne, -⟩ | ⟨hnot, -⟩
  · exact hne e
  · exact hnot (e ▸ self_mem_mro _)

end Ranges

/-! ## Numbering trees -/

/-- The ranges of several trees, one after the other. -/
def numberAll (visit : ClassDefId → Nat → List ClassRange × Nat) (cs : List ClassDefId) (next : Nat) : List ClassRange × Nat :=
  cs.foldl (fun acc c => (acc.1 ++ (visit c acc.2).1, (visit c acc.2).2)) ([], next)

theorem numberAll_cons (visit : ClassDefId → Nat → List ClassRange × Nat) (c : ClassDefId) (cs : List ClassDefId) (next : Nat) :
    numberAll visit (c :: cs) next = ((visit c next).1 ++ (numberAll visit cs (visit c next).2).1, (numberAll visit cs (visit c next).2).2) := by
  have hacc (rs : List ClassRange) (next : Nat) : cs.foldl (fun acc c => (acc.1 ++ (visit c acc.2).1, (visit c acc.2).2)) (rs, next) =
      (rs ++ (numberAll visit cs next).1, (numberAll visit cs next).2) := by
    unfold numberAll
    induction cs generalizing rs next with
    | nil => simp
    | cons c cs ih =>
      rw [foldl_cons, foldl_cons, ih, ih ([] ++ _), nil_append, append_assoc]
  exact hacc _ _

/-- Trees that have nothing in common get ranges that follow one another. -/
theorem numberAll_ranges (ho : w.Ordered) {visit : ClassDefId → Nat → List ClassRange × Nat} (hcs : cs.Pairwise (Tree.Apart w))
    (h : ∀ c ∈ cs, ∀ lo, Ranges w [c] lo (visit c lo).2 (visit c lo).1) (lo : Nat) :
    Ranges w cs lo (numberAll visit cs lo).2 (numberAll visit cs lo).1 := by
  induction cs generalizing lo with
  | nil => exact .nil w lo
  | cons c cs ih =>
    obtain ⟨hc, hcs⟩ := pairwise_cons.1 hcs
    rw [numberAll_cons]
    refine (h c mem_cons_self lo).append ho (ih hcs (fun c hc => h c (mem_cons_of_mem _ hc)) _) fun a ha c' hc' => ?_
    rw [mem_singleton.1 ha]
    exact hc c' hc'

/-- Every subclass has a greater number, so that there are steps enough for a whole tree. -/
theorem classRanges_ranges (hw : w.Tree) {n : Nat} (hc : w.Defined c) (hn : w.classDefs.size < n + c) (lo : Nat) :
    Ranges w [c] lo (Typing.classRanges (fun c => (w.classDef c).subs) n c lo).2 (Typing.classRanges (fun c => (w.classDef c).subs) n c lo).1 := by
  induction n generalizing c lo with
  | zero => exact absurd hc.2 (by omega)
  | succ n ih =>
    rw [Typing.classRanges]
    refine .root hw hc (numberAll_ranges hw.ordered (hw.pairwise_subs hc) (fun s hs lo => ?_) (lo + 1))
    have hlt := hw.lt_of_mem_subs hc hs
    exact ih ((hw.subs hc).1 hs).1 (by omega) lo

/-- The classes without a base. -/
def roots (w : World) : List ClassDefId := ((List.range w.classDefs.size).map (· + 1)).filter fun c => (w.classDef c).base.isNone

theorem mem_roots : c ∈ w.roots ↔ w.Defined c ∧ (w.classDef c).base = none := by
  have hdef : (∃ i, i < w.classDefs.size ∧ i + 1 = c) ↔ w.Defined c :=
    ⟨fun ⟨i, hi, e⟩ => e ▸ ⟨succ_pos i, hi⟩, fun ⟨hpos, hle⟩ => ⟨c - 1, by omega, by omega⟩⟩
  simp [roots, hdef]

theorem pairwise_roots (ho : w.Ordered) : w.roots.Pairwise (Tree.Apart w) := by
  have hnodup : w.roots.Nodup := ((nodup_range).map fun a b e => Nat.succ.inj e).filter _
  have htop {c z : Nat} (hc : c ∈ w.roots) (hz : z ∈ w.mro c) : z = c := by
    rcases (mem_mro_iff ho).1 hz with e | ⟨b, hb, -⟩
    · exact e
    · rw [(mem_roots.1 hc).2] at hb
      cases hb
  refine hnodup.pairwise_of_forall_ne fun c hc d hd hne z hcz hdz => ?_
  rcases mem_mro_total ho hcz hdz with h | h
  · exact hne (htop hc h).symm
  · exact hne (htop hd h)

theorem exists_root_mem_mro (hw : w.Tree) (hz : w.Defined z) : ∃ c ∈ w.roots, c ∈ w.mro z := by
  induction z using hw.ordered.induct with
  | step z ih =>
    cases hb : (w.classDef z).base with
    | none => exact ⟨z, mem_roots.2 ⟨hz, hb⟩, self_mem_mro z⟩
    | some b =>
      obtain ⟨c, hc, hcb⟩ := ih b hb (hw.defined_of_mem_mro hz ((mem_mro_iff hw.ordered).2 (.inr ⟨b, hb, self_mem_mro b⟩)))
      exact ⟨c, hc, (mem_mro_iff hw.ordered).2 (.inr ⟨b, hb, hcb⟩)⟩

theorem allClassRanges_ranges (hw : w.Tree) : ∃ hi, Ranges w w.roots 0 hi (Typing.allClassRanges w) :=
  ⟨_, numberAll_ranges hw.ordered (pairwise_roots hw.ordered)
    (fun _ hc lo => classRanges_ranges hw (mem_roots.1 hc).1 (Nat.lt_add_right _ (Nat.lt_succ_self _)) lo) 0⟩

/-! ## The numbered classes -/

/-- A class that has got its range. -/
def numbered (x : ClassRange) (k : ClassDef) : ClassDef := { k with minId := x.2.1, maxId := x.2.2 }

/-- Gives classes their ranges. -/
def withRanges (w : World) (rs : List ClassRange) : World := rs.foldl (fun w x => w.updateClassDef x.1 (numbered x)) w

theorem sameTree_numbered (w : World) (x : ClassRange) : w.SameTree (w.updateClassDef x.1 (numbered x)) :=
  .updateClassDef w x.1 (fun _ => rfl) (fun _ => rfl) fun _ => rfl

theorem classDef_withRanges_of_notMem (hrs : ∀ x ∈ rs, w.Defined x.1) (hz : w.Defined z) (hnot : z ∉ rs.map Prod.fst) :
    (w.withRanges rs).classDef z = w.classDef z := by
  induction rs generalizing w with
  | nil => rfl
  | cons x rs ih =>
    have t := sameTree_numbered w x
    rw [map_cons, mem_cons, not_or] at hnot
    refine (ih (fun y hy => t.defined.2 (hrs y (mem_cons_of_mem _ hy))) (t.defined.2 hz) hnot.2).trans ?_
    rw [classDef_updateClassDef (hrs x mem_cons_self) hz, if_neg (Ne.symm hnot.1)]

theorem ids_withRanges (hrs : ∀ x ∈ rs, w.Defined x.1) (hn : (rs.map Prod.fst).Nodup) (hx : x ∈ rs) :
    ((w.withRanges rs).classDef x.1).minId = x.2.1 ∧ ((w.withRanges rs).classDef x.1).maxId = x.2.2 := by
  induction rs generalizing w with
  | nil => cases hx
  | cons y rs ih =>
    have t := sameTree_numbered w y
    have hrs' : ∀ x ∈ rs, (w.updateClassDef y.1 (numbered y)).Defined x.1 := fun x hx => t.defined.2 (hrs x (mem_cons_of_mem _ hx))
    obtain ⟨hy, hn⟩ := nodup_cons.1 hn
    rcases mem_cons.1 hx with rfl | hx
    · have hdef := hrs x mem_cons_self
      have hkeep := classDef_withRanges_of_notMem hrs' (t.defined.2 hdef) hy
      rw [classDef_updateClassDef hdef hdef, if_pos rfl] at hkeep
      exact ⟨congrArg ClassDef.minId hkeep, congrArg ClassDef.maxId hkeep⟩
    · exact ih hrs' hn hx

/-- The first number of a class, and the first one that no class below it has. -/
def numbers (w : World) (c : ClassDefId) : Int × Int := (((Typing.numberClasses w).classDef c).minId, ((Typing.numberClasses w).classDef c).maxId)

/-- A class has a range among others, and that is kept in its numbers. -/
structure HasRange (w : World) (rs : List ClassRange) (c lo hi : Nat) : Prop where
  mem : (c, lo, hi) ∈ rs
  lt : lo < hi
  le : hi ≤ w.classDefs.size
  numbers : w.numbers c = ((lo : Int), (hi : Int))

/-- Every class has its range, and the ranges follow one another. -/
theorem exists_ranges (hw : w.Tree) : ∃ rs : List ClassRange, rs.Pairwise (Follows w) ∧ ∀ c, w.Defined c → ∃ lo hi, w.HasRange rs c lo hi := by
  obtain ⟨hi, h⟩ := allClassRanges_ranges hw
  have hlen : hi ≤ w.classDefs.size := by
    have hsub : (Typing.allClassRanges w).map Prod.fst ⊆ List.range' 1 w.classDefs.size := by
      intro z hz
      obtain ⟨hd, -⟩ := (h.mem z).1 hz
      exact mem_range'_1.2 ⟨hd.1, lt_of_le_of_lt hd.2 (by omega)⟩
    have := (List.Nodup.subperm h.nodup hsub).length_le
    rw [length_map, length_range'] at this
    rw [h.count, zero_add]
    exact this
  refine ⟨_, h.follows, fun c hc => ?_⟩
  obtain ⟨⟨c, lo, hi'⟩, hx, rfl⟩ := mem_map.1 ((h.mem c).2 ⟨hc, exists_root_mem_mro hw hc⟩)
  obtain ⟨-, hlt, hle⟩ := h.within _ hx
  obtain ⟨hmin, hmax⟩ := ids_withRanges (fun x hx => (h.exists_root hx).1) h.nodup hx
  exact ⟨lo, hi', hx, hlt, le_trans hle hlen, Prod.ext hmin hmax⟩

theorem follows_or (h : rs.Pairwise (Follows w)) (hc : w.HasRange rs c lo hi) (hc' : w.HasRange rs c' lo' hi')
    (hne : c ≠ c') : Follows w (c, lo, hi) (c', lo', hi') ∨ Follows w (c', lo', hi') (c, lo, hi) := by
  let R (x y : ClassRange) : Prop := Follows w x y ∨ Follows w y x
  have hsymm : Std.Symm R := ⟨fun _ _ => Or.symm⟩
  have hR : rs.Pairwise R := h.imp .inl
  exact hR.forall hc.mem hc'.mem fun e => hne (congrArg Prod.fst e)

theorem inside_of_mem_mro (ho : w.Ordered) (h : rs.Pairwise (Follows w)) (hc : w.HasRange rs c lo hi)
    (hc' : w.HasRange rs c' lo' hi') (hmem : c ∈ w.mro c') : lo ≤ lo' ∧ hi' ≤ hi := by
  by_cases e : c = c'
  · subst e
    have hsame := hc.numbers.symm.trans hc'.numbers
    rw [Prod.mk.injEq] at hsame
    omega
  · rcases follows_or h hc hc' e with (⟨-, -, h₁, h₂⟩ | ⟨hnot, -⟩) | (⟨-, hmem', -⟩ | ⟨-, hnot, -⟩)
    · exact ⟨le_of_lt h₁, h₂⟩
    · exact absurd hmem hnot
    · exact absurd (eq_of_mem_mro ho hmem hmem') e
    · exact absurd hmem hnot

theorem apart_of_notMem_mro (h : rs.Pairwise (Follows w)) (hc : w.HasRange rs c lo hi)
    (hc' : w.HasRange rs c' lo' hi') (hnot : c ∉ w.mro c') (hnot' : c' ∉ w.mro c) : hi ≤ lo' ∨ hi' ≤ lo := by
  have hne : c ≠ c' := fun e => hnot (e ▸ self_mem_mro c)
  rcases follows_or h hc hc' hne with (⟨-, hmem, -⟩ | ⟨-, -, hle⟩) | (⟨-, hmem, -⟩ | ⟨-, -, hle⟩)
  · exact absurd hmem hnot
  · exact .inl hle
  · exact absurd hmem hnot'
  · exact .inr hle

/-- A range begins inside another one when its class is at or below that of the other one. -/
theorem starts_inside_iff (ho : w.Ordered) (h : rs.Pairwise (Follows w)) (hc : w.HasRange rs c lo hi)
    (hc' : w.HasRange rs c' lo' hi') : lo ≤ lo' ∧ lo' < hi ↔ c ∈ w.mro c' := by
  by_cases e : c = c'
  · subst e
    have hsame : ((lo : Int), (hi : Int)) = ((lo' : Int), (hi' : Int)) := hc.numbers.symm.trans hc'.numbers
    obtain ⟨rfl, rfl⟩ : lo = lo' ∧ hi = hi' := by
      rw [Prod.mk.injEq] at hsame
      omega
    exact iff_of_true ⟨le_refl _, hc.lt⟩ (self_mem_mro c)
  · have hlt := hc.lt
    have hlt' := hc'.lt
    rcases follows_or h hc hc' e with (⟨-, hmem, h₁, h₂⟩ | ⟨hnot, -, h₁⟩) | (⟨-, hmem, h₁, h₂⟩ | ⟨-, hnot, h₁⟩)
    all_goals dsimp only at *
    · exact iff_of_true ⟨by omega, by omega⟩ hmem
    · exact iff_of_false (by omega) hnot
    · exact iff_of_false (by omega) fun hc => e (eq_of_mem_mro ho hc hmem)
    · exact iff_of_false (by omega) hnot

end World

/-! ## The test in lowered code -/

namespace Typing

open World

variable {k : Knot} {t : Typer} {w : World}

theorem subclassTest_ok {cls : ClassId} {c : ClassDefId} (table : Operand) (t : Typer) (h : Ana.uniqueClassDef cls k w = .ok c w) :
    ∃ i j t' w', subclassTest table (.cls cls) t k w = .ok (.var j, t') w' ∧
      t'.out.ops = (t.out.ops.push { name := "getfield", args := [table, fieldName "subclassrange_min"], result := some i }).push
        { name := "int_between", args := [signedConst (w.classDef c).minId, .var i, signedConst (w.classDef c).maxId], result := some j } := by
  have hd : (liftM (Ana.uniqueClassDef cls) : Typing ClassDefId) t k w = .ok (c, t) w := lift_of_ok h
  obtain ⟨t₁, s₁, h₁, e₁, -⟩ := emit_ok "getfield" [table, fieldName "subclassrange_min"] .signed t k w
  obtain ⟨t₂, s₂, h₂, e₂, -⟩ := emit_ok "int_between"
    [signedConst (w.classDef c).minId, .var (w.prog.flow.vars.size + 1), signedConst (w.classDef c).maxId] .bool t₁ k (withFlow w s₁)
  refine ⟨w.prog.flow.vars.size + 1, s₁.vars.size + 1, t₂, withFlow (withFlow w s₁) s₂, ?_, e₂.trans (congrArg (Array.push · _) e₁)⟩
  exact (bind_run hd).trans ((bind_run h₁).trans h₂)

/-- What a test of a number by a range of constants answers. -/
def inRange : List Operand → Int64 → Bool
  | [.const (.int lo) _, .var _, .const (.int hi) _], n => Word.between lo n hi
  | _, _ => false

theorem inRange_iff {lo n hi : Nat} (i : VarId) (hlo : lo < 2 ^ 63) (hn : n < 2 ^ 63) (hhi : hi < 2 ^ 63) :
    inRange [signedConst lo, .var i, signedConst hi] (Int64.ofInt n) = true ↔ lo ≤ n ∧ n < hi := by
  have hword {m : Nat} (hm : m < 2 ^ 63) : (Int64.ofInt m).toInt = m := Int64.toInt_ofInt_of_le (by omega) (by omega)
  change (decide (Int64.ofInt lo ≤ Int64.ofInt n) && decide (Int64.ofInt n < Int64.ofInt hi)) = true ↔ _
  rw [Bool.and_eq_true, decide_eq_true_iff, decide_eq_true_iff, Int64.le_iff_toInt_le, Int64.lt_iff_toInt_lt, hword hlo, hword hn,
    hword hhi, ofNat_le, ofNat_lt]

/-- **The numbers of classes decide which classes are subclasses.**  No range is empty, no two classes have the same first
number, the range of a subclass is inside that of the class and the ranges of unrelated classes have nothing in common.  So
a class is a subclass of another one when its first number is in the range of that one, and the test that is made in lowered
code, on machine words, answers just this. -/
theorem classNumbers_decide (hw : w.Tree) :
    (∀ c, w.Defined c → (w.numbers c).1 < (w.numbers c).2) ∧
    (∀ c d, w.Defined c → w.Defined d → (w.numbers c).1 = (w.numbers d).1 → c = d) ∧
    (∀ c d, w.Defined c → w.Defined d → w.isSubclass d c → (w.numbers c).1 ≤ (w.numbers d).1 ∧ (w.numbers d).2 ≤ (w.numbers c).2) ∧
    (∀ c d, w.Defined c → w.Defined d → ¬ w.isSubclass d c → ¬ w.isSubclass c d →
      (w.numbers c).2 ≤ (w.numbers d).1 ∨ (w.numbers d).2 ≤ (w.numbers c).1) ∧
    (∀ c d, w.Defined c → w.Defined d → ((w.numbers c).1 ≤ (w.numbers d).1 ∧ (w.numbers d).1 < (w.numbers c).2 ↔ w.isSubclass d c)) ∧
    ∀ c, w.Defined c → w.classDefs.size < 2 ^ 63 → ∀ cls k, Ana.uniqueClassDef cls k (numberClasses w) = .ok c (numberClasses w) →
      ∀ table t, ∃ i j args t' w', subclassTest table (.cls cls) t k (numberClasses w) = .ok (.var j, t') w' ∧
        t'.out.ops = (t.out.ops.push { name := "getfield", args := [table, fieldName "subclassrange_min"], result := some i }).push
          { name := "int_between", args := args, result := some j } ∧
        args[1]? = some (.var i) ∧ ∀ d, w.Defined d → inRange args (Int64.ofInt (w.numbers d).1) = w.isSubclass d c := by
  obtain ⟨rs, hrs, hall⟩ := exists_ranges hw
  have hsub (c d : Nat) : w.isSubclass d c = true ↔ c ∈ w.mro d := by simp [isSubclass]
  refine ⟨fun c hc => ?_, fun c d hc hd e => ?_, fun c d hc hd h => ?_, fun c d hc hd h h' => ?_, fun c d hc hd => ?_,
    fun c hc hsize cls k hk table t => ?_⟩
  · obtain ⟨lo, hi, hr⟩ := hall c hc
    rw [hr.numbers]
    exact Int.ofNat_lt.2 hr.lt
  · obtain ⟨lo, hi, hr⟩ := hall c hc
    obtain ⟨lo', hi', hr'⟩ := hall d hd
    rw [hr.numbers, hr'.numbers] at e
    -- each of the two ranges begins inside the other one
    obtain rfl : lo = lo' := Int.ofNat.inj e
    exact eq_of_mem_mro hw.ordered ((starts_inside_iff hw.ordered hrs hr hr').1 ⟨le_refl _, hr.lt⟩)
      ((starts_inside_iff hw.ordered hrs hr' hr).1 ⟨le_refl _, hr'.lt⟩)
  · obtain ⟨lo, hi, hr⟩ := hall c hc
    obtain ⟨lo', hi', hr'⟩ := hall d hd
    rw [hr.numbers, hr'.numbers, Int.ofNat_le, Int.ofNat_le]
    exact inside_of_mem_mro hw.ordered hrs hr hr' ((hsub c d).1 h)
  · obtain ⟨lo, hi, hr⟩ := hall c hc
    obtain ⟨lo', hi', hr'⟩ := hall d hd
    rw [hr.numbers, hr'.numbers, Int.ofNat_le, Int.ofNat_le]
    exact apart_of_notMem_mro hrs hr hr' (mt (hsub c d).2 h) (mt (hsub d c).2 h')
  · obtain ⟨lo, hi, hr⟩ := hall c hc
    obtain ⟨lo', hi', hr'⟩ := hall d hd
    rw [hr.numbers, hr'.numbers, Int.ofNat_le, Int.ofNat_lt, hsub]
    exact starts_inside_iff hw.ordered hrs hr hr'
  · obtain ⟨i, j, t', w', hrun, hops⟩ := subclassTest_ok table t hk
    refine ⟨i, j, _, t', w', hrun, hops, rfl, fun d hd => ?_⟩
    obtain ⟨lo, hi, hr⟩ := hall c hc
    obtain ⟨lo', hi', hr'⟩ := hall d hd
    have hmin : ((numberClasses w).classDef c).minId = lo := congrArg Prod.fst hr.numbers
    have hmax : ((numberClasses w).classDef c).maxId = hi := congrArg Prod.snd hr.numbers
    have hlt := hr.lt
    have hlt' := hr'.lt
    have hle := hr.le
    have hle' := hr'.le
    rw [hr'.numbers, hmin, hmax, Bool.eq_iff_iff, hsub, ← starts_inside_iff hw.ordered hrs hr hr']
    exact inRange_iff i (by omega) (by omega) (by omega)

/-- A class with two subclasses, of which the first has one itself, and another class. -/
def forest : World where
  classDefs := #[{ name := "A", key := "", desc := 1, base := none, subs := [2, 3] },
    { name := "B", key := "", desc := 2, base := some 1, subs := [4] }, { name := "C", key := "", desc := 3, base := some 1 },
    { name := "E", key := "", desc := 4, base := some 2 }, { name := "D", key := "", desc := 5, base := none }]

theorem tree_forest : forest.Tree := by
  have hcases {c : Nat} (hc : forest.Defined c) : c = 1 ∨ c = 2 ∨ c = 3 ∨ c = 4 ∨ c = 5 := by
    obtain ⟨h₁, h₂⟩ := hc
    change c ≤ 5 at h₂
    omega
  constructor
  · intro c b hc hb
    rcases hcases hc with rfl | rfl | rfl | rfl | rfl <;> cases hb <;> decide
  · intro c c' hc
    have hdef : forest.Defined c' ∧ (forest.classDef c').base = some c ↔ (c' = 2 ∨ c' = 3) ∧ c = 1 ∨ c' = 4 ∧ c = 2 := by
      constructor
      · rintro ⟨hc', hb⟩
        rcases hcases hc' with rfl | rfl | rfl | rfl | rfl <;> cases hb <;> simp
      · rintro (⟨rfl | rfl, rfl⟩ | ⟨rfl, rfl⟩) <;> exact ⟨⟨by decide, by decide⟩, rfl⟩
    rw [hdef]
    rcases hcases hc with rfl | rfl | rfl | rfl | rfl <;> simp [forest, classDef]
  · intro c hc
    rcases hcases hc with rfl | rfl | rfl | rfl | rfl <;> decide

/-- The test of the first class finds the class below its subclass and not the other class. -/
theorem classNumbers_decide_forest : ∃ i j args t' w', subclassTest (.var 0) (.cls 0) {}
      { Annot.idle with descOf := fun _ => pure 1, classDefOf := fun _ _ => pure 1 } (numberClasses forest) = .ok (.var j, t') w' ∧
    t'.out.ops = #[{ name := "getfield", args := [.var 0, fieldName "subclassrange_min"], result := some i },
      { name := "int_between", args := args, result := some j }] ∧
    inRange args (Int64.ofInt (forest.numbers 4).1) = true ∧ inRange args (Int64.ofInt (forest.numbers 5).1) = false := by
  have hdef (c : Nat) (h : 0 < c ∧ c ≤ 5) : forest.Defined c := h
  obtain ⟨i, j, args, t', w', hrun, hops, -, htest⟩ := (classNumbers_decide tree_forest).2.2.2.2.2 1 (hdef 1 (by decide)) (by decide) 0
    { Annot.idle with descOf := fun _ => pure 1, classDefOf := fun _ _ => pure 1 } rfl (.var 0) {}
  exact ⟨i, j, args, t', w', hrun, hops, (htest 4 (hdef 4 (by decide))).trans (by decide), (htest 5 (hdef 5 (by decide))).trans (by decide)⟩

end Typing
end FlowCompiler
