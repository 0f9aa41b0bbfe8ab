import Mathlib.Data.List.Forall2
import Mathlib.Data.List.Nodup
import Mathlib.Data.List.Perm.Subperm
import FlowCompiler.Proofs.Lookup
import FlowCompiler.Trace.Resume

/-!
# The numbers of resume data

A tagged word gives its number and its kind back, as long as the number fits into thirty bits.  Numbering the
values of a guard makes tables in which every number stands for its value: `Stands` says so of one number, and
`Encodes` of the resume data of a guard as a whole.

Virtual objects are numbered in the order in which they are met.  While the contents of one are numbered its
entry is empty; `Consistent` says of the tables, with such entries left open, that all else is in order.
-/

namespace FlowCompiler.Trace

open List

variable {i : Nat} {t : Tag} {v : Value} {c : Const}

/-! ## Tagged words -/

theorem Tag.ofCode_code (t : Tag) : .ofCode t.code = t := by cases t <;> decide

theorem Tag.code_range (t : Tag) : 0 ≤ t.code.toInt ∧ t.code.toInt < 4 := by cases t <;> decide

theorem Tag.getLsbD_code (t : Tag) (hi : 2 ≤ i) : t.code.toBitVec.getLsbD i = false := by
  have hcode : t.code.toBitVec.toNat < 2 ^ 2 := by cases t <;> decide
  exact Nat.testBit_lt_two_pow (Nat.lt_of_lt_of_le hcode (Nat.pow_le_pow_right (by decide) hi))

namespace Tagged

/-- The numbers that a tagged word has room for. -/
def Fits (n : Int) : Prop := -536870912 ≤ n ∧ n < 536870912

variable {n : Int}

theorem fits_of_isSmall (h : isSmall n = true) : Fits n := by
  have hlow : smallest = -268435456 := rfl
  have hhigh : largest = 268435455 := rfl
  simp only [isSmall, Bool.and_eq_true, decide_eq_true_eq] at h
  unfold Fits
  omega

theorem fits_of_lt (h : i < 536870912) : Fits (i : Int) := ⟨by omega, by omega⟩

theorem toBitVec_shift (n : Int) : (Int32.ofInt n <<< 2).toBitVec = BitVec.ofInt 32 n <<< 2 := by
  rw [Int32.toBitVec_shiftLeft]
  rfl

theorem shift_or_code (n : Int) (t : Tag) : Int32.ofInt n <<< 2 ||| t.code = Int32.ofInt n <<< 2 + t.code := by
  apply Int32.toBitVec_inj.1
  rw [Int32.toBitVec_or, Int32.toBitVec_add, toBitVec_shift, BitVec.add_eq_or_of_and_eq_zero]
  apply BitVec.eq_of_getLsbD_eq
  intro i _
  rw [BitVec.getLsbD_and, BitVec.getLsbD_shiftLeft, BitVec.getLsbD_zero]
  by_cases hi : i < 2
  · simp [hi]
  · rw [t.getLsbD_code (Nat.le_of_not_lt hi), Bool.and_false]

theorem toInt_word_make (h : Fits n) : (make n t).word.toInt = 4 * n + t.code.toInt := by
  have hcode := t.code_range
  unfold Fits at h
  have hfour : (Int32.ofInt n <<< 2).toInt = 4 * n := by
    change (Int32.ofInt n <<< 2).toBitVec.toInt = _
    rw [toBitVec_shift, BitVec.shiftLeft_eq_mul_twoPow, BitVec.toInt_mul, BitVec.toInt_ofInt,
      show (BitVec.twoPow 32 2).toInt = 4 from rfl, Int.bmod_def, Int.bmod_def]
    omega
  rw [make, shift_or_code, Int32.toInt_add, hfour, Int.bmod_def]
  omega

theorem value_make (h : Fits n) : (make n t).value = n := by
  have hcode := t.code_range
  change ((make n t).word >>> 2).toBitVec.toInt = n
  rw [Int32.toBitVec_shiftRight]
  change ((make n t).word.toBitVec.sshiftRight 2).toInt = n
  rw [BitVec.toInt_sshiftRight, Int.shiftRight_eq_div_pow]
  change (make n t).word.toInt / _ = n
  rw [toInt_word_make h]
  omega

theorem tag_make (n : Int) (t : Tag) : (make n t).tag = t := by
  have hand : (make n t).word &&& 3 = t.code := by
    apply Int32.toBitVec_inj.1
    rw [make, Int32.toBitVec_and, Int32.toBitVec_or, toBitVec_shift]
    apply BitVec.eq_of_getLsbD_eq
    intro i hi
    rw [BitVec.getLsbD_and, BitVec.getLsbD_or, BitVec.getLsbD_shiftLeft]
    match i with
    | 0 => cases t <;> simp [Tag.code]
    | 1 => cases t <;> simp [Tag.code]
    | i + 2 =>
      have hthree : (3 : Int32).toBitVec.getLsbD (i + 2) = false := Tag.virtual.getLsbD_code (by omega)
      rw [hthree, t.getLsbD_code (by omega), Bool.and_false]
  rw [tag, hand, Tag.ofCode_code]

/-- Only a box with the number of a hole would be taken for one. -/
theorem make_ne_unassigned (hn : Fits n) (h : t = .box → 0 ≤ n) : make n t ≠ unassigned := by
  intro e
  have ht := congrArg tag e
  have hv := congrArg value e
  rw [unassigned, tag_make, tag_make] at ht
  rw [unassigned, value_make hn, value_make (by unfold Fits; omega)] at hv
  have := h ht
  omega

end Tagged

/-! ## Tables -/

/-- The same shape around other contents. -/
def Shape.withItems {α β : Type} (s : Shape α) (items : List β) : Shape β := { s with items }

def Resolved.isVirtual : Resolved → Bool
  | .value _ => false
  | .virtual _ => true

section Tables

variable (resolve : Value → Resolved)

/-- A number stands for a value: it is a small integer itself, or the place of the value in a table. -/
inductive Stands (consts : Array Const) (live : Array Box) (keys : List (Value × Nat)) : Option Value → Tagged → Prop
  | hole : Stands consts live keys none .unassigned
  | lost {v : Value} (h : resolve v = .value none) : Stands consts live keys (some v) .unassigned
  | small {v : Value} {k : Int64} (h : resolve v = .value (some (.const (.int k)))) (hk : Tagged.isSmall k.toInt = true) :
      Stands consts live keys (some v) (.make k.toInt .int)
  | const {v : Value} {c : Const} {i : Nat} (h : resolve v = .value (some (.const c)))
      (hc : ∀ k, c = .int k → Tagged.isSmall k.toInt = false) (hi : consts[i]? = some c) : Stands consts live keys (some v) (.make i .const)
  | box {v : Value} {b : Box} {i : Nat} (h : resolve v = .value (some (.box b))) (hi : live[i]? = some b) :
      Stands consts live keys (some v) (.make i .box)
  | virtual {v : Value} {s : Shape (Option Value)} {i : Nat} (h : resolve v = .virtual s) (hi : (v, i) ∈ keys) :
      Stands consts live keys (some v) (.make i .virtual)

/-- The tables of a numbering give a number its value. -/
def Numbering.Stands (n : Numbering) : Option Value → Tagged → Prop := Trace.Stands resolve n.data.consts n.data.live n.keys

/-- Tables only grow. -/
structure Numbering.Extends (n n' : Numbering) : Prop where
  consts : n.data.consts.toList <+: n'.data.consts.toList
  live : n.data.live.toList <+: n'.data.live.toList
  keys : n.keys <:+ n'.keys

namespace Numbering.Extends

variable {n n' n'' : Numbering}

theorem refl (n : Numbering) : n.Extends n := ⟨prefix_refl _, prefix_refl _, suffix_refl _⟩

theorem trans (h : n.Extends n') (h' : n'.Extends n'') : n.Extends n'' := ⟨h.consts.trans h'.consts, h.live.trans h'.live, h.keys.trans h'.keys⟩

theorem stands {resolve : Value → Resolved} (h : n.Extends n') {v : Option Value} {x : Tagged} (hs : n.Stands resolve v x) :
    n'.Stands resolve v x := by
  have hget {α : Type} {xs ys : Array α} (hp : xs.toList <+: ys.toList) {i : Nat} {a : α} (ha : xs[i]? = some a) : ys[i]? = some a := by
    obtain ⟨zs, e⟩ := hp
    rw [← Array.getElem?_toList] at ha ⊢
    rw [← e, List.getElem?_append_left (List.getElem?_eq_some_iff.1 ha).1]
    exact ha
  cases hs with
  | hole => exact .hole
  | lost hv => exact .lost hv
  | small hv hk => exact .small hv hk
  | const hv hc hi => exact .const hv hc (hget h.consts hi)
  | box hv hi => exact .box hv (hget h.live hi)
  | virtual hv hi => exact .virtual hv (h.keys.mem hi)

end Numbering.Extends

/-- The tables are in order, apart from the entries of virtual objects whose contents are being numbered.  All that
they hold is among some values. -/
structure Consistent (values : List Value) (opened : List Nat) (n : Numbering) : Prop where
  indices : n.keys.map Prod.snd = (List.range n.data.virtuals.size).reverse
  nodup : (n.keys.map Prod.fst).Nodup
  mem : ∀ e ∈ n.keys, e.1 ∈ values
  entry : ∀ v i, (v, i) ∈ n.keys → ∃ s nums, resolve v = .virtual s ∧ n.data.virtuals[i]? = some (s.withItems nums) ∧
    (i ∈ opened ∨ List.Forall₂ (n.Stands resolve) s.items nums)
  consts_nodup : n.data.consts.toList.Nodup
  consts_mem : ∀ c ∈ n.data.consts.toList, ∃ v ∈ values, resolve v = .value (some (.const c))
  live_nodup : n.data.live.toList.Nodup
  live_mem : ∀ b ∈ n.data.live.toList, ∃ v ∈ values, resolve v = .value (some (.box b))

/-- What is inside virtual objects is among the values too. -/
def Closed (values : List Value) : Prop := ∀ v ∈ values, ∀ s, resolve v = .virtual s → ∀ u, some u ∈ s.items → u ∈ values

/-- The virtual objects among some values. -/
def virtualsOf (values : List Value) : List Value := values.filter fun v => (resolve v).isVirtual

end Tables

/-! ## Numbering -/

variable (describe : Descr → String) {s : Shape (Option Value)} {α : Type} {pending : List (Pending (Option Value))} {β : Type} {R : α → β → Prop}
  {as : List α} {bs : List β}

theorem lookup_of_mem [BEq α] [LawfulBEq α] {xs : List (α × β)} (hd : (xs.map Prod.fst).Nodup) {a : α} {b : β}
    (h : (a, b) ∈ xs) : xs.lookup a = some b := by
  induction xs with
  | nil => cases h
  | cons e rest ih =>
    obtain ⟨hne, hd⟩ := nodup_cons.1 (map_cons ▸ hd)
    rw [lookup_cons]
    rcases mem_cons.1 h with rfl | h
    · simp
    · have : (a == e.1) = false := beq_false_of_ne fun e' => hne (e' ▸ mem_map_of_mem h)
      rw [this]
      exact ih hd h

theorem exists_of_forall₂ (h : List.Forall₂ R as bs) {a : α} (ha : a ∈ as) : ∃ b ∈ bs, R a b := by
  induction h with
  | nil => cases ha
  | cons hab _ ih =>
    rcases mem_cons.1 ha with rfl | ha
    · exact ⟨_, mem_cons_self .., hab⟩
    · obtain ⟨b, hb, h⟩ := ih ha
      exact ⟨b, mem_cons_of_mem _ hb, h⟩

theorem exists_of_forall₂' (h : List.Forall₂ R as bs) {b : β} (hb : b ∈ bs) : ∃ a ∈ as, R a b := exists_of_forall₂ h.flip hb

section Numbering

variable {resolve : Value → Resolved} {values : List Value} {opened : List Nat} {n : Numbering}

theorem Consistent.keys_length (h : Consistent resolve values opened n) : n.keys.length = n.data.virtuals.size := by
  have := congrArg List.length h.indices
  simpa using this

theorem Consistent.keys_length_le (h : Consistent resolve values opened n) : n.keys.length ≤ (virtualsOf resolve values).length := by
  have hsub : n.keys.map Prod.fst ⊆ virtualsOf resolve values := by
    intro v hv
    obtain ⟨⟨v, i⟩, hi, rfl⟩ := mem_map.1 hv
    obtain ⟨s, nums, hs, -⟩ := h.entry v i hi
    exact mem_filter.2 ⟨h.mem _ hi, by simp [hs, Resolved.isVirtual]⟩
  simpa using (subperm_of_subset h.nodup hsub).length_le

/-- What numbering a value leads to. -/
structure Numbered (resolve : Value → Resolved) (values : List Value) (opened : List Nat) (n : Numbering) (v : Option Value)
    (r : Tagged × Numbering) : Prop where
  extend : n.Extends r.2
  consistent : Consistent resolve values opened r.2
  stands : r.2.Stands resolve v r.1

theorem Consistent.push_const (h : Consistent resolve values opened n) (hv : v ∈ values)
    (hc : resolve v = .value (some (.const c))) (hnew : c ∉ n.data.consts.toList) :
    let n' : Numbering := { n with data := { n.data with consts := n.data.consts.push c } }
    n.Extends n' ∧ Consistent resolve values opened n' := by
  intro n'
  have hext : n.Extends n' := ⟨by simp [n'], prefix_refl _, suffix_refl _⟩
  refine ⟨hext, { h with entry := fun u i hi => ?_, consts_nodup := ?_, consts_mem := fun d hd => ?_ }⟩
  · obtain ⟨s, nums, hs, he, hn⟩ := h.entry u i hi
    exact ⟨s, nums, hs, he, hn.imp_right fun hn => hn.imp fun _ _ => hext.stands⟩
  · simp only [n', Array.toList_push]
    exact nodup_append.2 ⟨h.consts_nodup, by simp, by
      rintro a ha d hd rfl
      exact hnew (mem_singleton.1 hd ▸ ha)⟩
  · simp only [n', Array.toList_push, mem_append, mem_singleton] at hd
    rcases hd with hd | rfl
    · exact h.consts_mem d hd
    · exact ⟨v, hv, hc⟩

theorem Consistent.push_box (h : Consistent resolve values opened n) {b : Box} (hv : v ∈ values)
    (hb : resolve v = .value (some (.box b))) (hnew : b ∉ n.data.live.toList) :
    let n' : Numbering := { n with data := { n.data with live := n.data.live.push b } }
    n.Extends n' ∧ Consistent resolve values opened n' := by
  intro n'
  have hext : n.Extends n' := ⟨prefix_refl _, by simp [n'], suffix_refl _⟩
  refine ⟨hext, { h with entry := fun u i hi => ?_, live_nodup := ?_, live_mem := fun d hd => ?_ }⟩
  · obtain ⟨s, nums, hs, he, hn⟩ := h.entry u i hi
    exact ⟨s, nums, hs, he, hn.imp_right fun hn => hn.imp fun _ _ => hext.stands⟩
  · simp only [n', Array.toList_push]
    exact nodup_append.2 ⟨h.live_nodup, by simp, by
      rintro a ha d hd rfl
      exact hnew (mem_singleton.1 hd ▸ ha)⟩
  · simp only [n', Array.toList_push, mem_append, mem_singleton] at hd
    rcases hd with hd | rfl
    · exact h.live_mem d hd
    · exact ⟨v, hv, hb⟩

theorem modifyGet_apply (f : Numbering → Tagged × Numbering) : (modifyGet f : NumberM Tagged) n = f n := rfl

section

variable (h : Consistent resolve values opened n) (hv : v ∈ values)
include h hv

theorem addConst_spec (hc : resolve v = .value (some (.const c))) (hsmall : ∀ k, c = .int k → Tagged.isSmall k.toInt = false) :
    Numbered resolve values opened n (some v) (NumberM.addConst c n) := by
  unfold NumberM.addConst
  rw [modifyGet_apply]
  split
  · rename_i i hi
    obtain ⟨hlt, he, -⟩ := Array.findIdx?_eq_some_iff_getElem.1 hi
    exact ⟨.refl n, h, .const hc hsmall (by rw [Array.getElem?_eq_getElem hlt, eq_of_beq he])⟩
  · rename_i hi
    have hnew : c ∉ n.data.consts.toList := by
      intro hmem
      have := Array.findIdx?_eq_none_iff.1 hi c (by simpa using hmem)
      simp at this
    obtain ⟨hext, hcons⟩ := h.push_const hv hc hnew
    exact ⟨hext, hcons, .const hc hsmall (by simp)⟩

theorem addBox_spec {b : Box} (hb : resolve v = .value (some (.box b))) : Numbered resolve values opened n (some v) (NumberM.addBox b n) := by
  unfold NumberM.addBox
  rw [modifyGet_apply]
  split
  · rename_i i hi
    obtain ⟨hlt, he, -⟩ := Array.findIdx?_eq_some_iff_getElem.1 hi
    exact ⟨.refl n, h, .box hb (by rw [Array.getElem?_eq_getElem hlt, eq_of_beq he])⟩
  · rename_i hi
    have hnew : b ∉ n.data.live.toList := by
      intro hmem
      have := Array.findIdx?_eq_none_iff.1 hi b (by simpa using hmem)
      simp at this
    obtain ⟨hext, hcons⟩ := h.push_box hv hb hnew
    exact ⟨hext, hcons, .box hb (by simp)⟩

theorem numberConst_spec (hc : resolve v = .value (some (.const c))) : Numbered resolve values opened n (some v) (NumberM.numberConst c n) := by
  unfold NumberM.numberConst
  split
  · rename_i k
    split
    · rename_i hk
      exact ⟨.refl n, h, .small hc hk⟩
    · rename_i hk
      exact addConst_spec h hv hc fun _ e => Const.int.inj e ▸ eq_false_of_ne_true hk
  · rename_i hk
    exact addConst_spec h hv hc fun _ e => absurd e (hk _)

theorem Consistent.enter (hs : resolve v = .virtual s) (hkey : v ∉ n.keys.map Prod.fst) : let n' := (NumberM.enterVirtual v s n).2
    n.Extends n' ∧ Consistent resolve values (n.data.virtuals.size :: opened) n' := by
  intro n'
  have hext : n.Extends n' := ⟨prefix_refl _, prefix_refl _, suffix_cons _ _⟩
  have hkeys : n'.keys = (v, n.data.virtuals.size) :: n.keys := rfl
  have hvirtuals : n'.data.virtuals = n.data.virtuals.push (s.withItems []) := rfl
  refine ⟨hext, ?_, ?_, ?_, ?_, h.consts_nodup, h.consts_mem, h.live_nodup, h.live_mem⟩
  · rw [hkeys, hvirtuals, map_cons, h.indices, Array.size_push, range_succ, reverse_append]
    rfl
  · rw [hkeys, map_cons]
    exact nodup_cons.2 ⟨hkey, h.nodup⟩
  · intro e he
    rcases mem_cons.1 (hkeys ▸ he) with rfl | he
    · exact hv
    · exact h.mem e he
  · intro u i hi
    rcases mem_cons.1 (hkeys ▸ hi) with e | hi
    · cases e
      exact ⟨s, [], hs, by simp [hvirtuals], .inl (mem_cons_self ..)⟩
    · obtain ⟨t, nums, ht, he, hn⟩ := h.entry u i hi
      refine ⟨t, nums, ht, ?_, hn.imp (mem_cons_of_mem _) fun hn => hn.imp fun _ _ => hext.stands⟩
      rw [hvirtuals, Array.getElem?_push, if_neg, he]
      exact Nat.ne_of_lt (Array.getElem?_eq_some_iff.1 he).1

end

theorem Consistent.fill (h : Consistent resolve values (i :: opened) n)
    (hs : resolve v = .virtual s) (hkey : (v, i) ∈ n.keys) {nums : List Tagged} (hnums : List.Forall₂ (n.Stands resolve) s.items nums) :
    let n' := (NumberM.fillVirtual i nums n).2
    n.Extends n' ∧ Consistent resolve values opened n' := by
  intro n'
  have hext : n.Extends n' := ⟨prefix_refl _, prefix_refl _, suffix_refl _⟩
  have hvirtuals : n'.data.virtuals = n.data.virtuals.modify i fun t => t.withItems nums := rfl
  refine ⟨hext, ?_, h.nodup, h.mem, ?_, h.consts_nodup, h.consts_mem, h.live_nodup, h.live_mem⟩
  · rw [hvirtuals, Array.size_modify]
    exact h.indices
  · intro u j hj
    obtain ⟨t, old, ht, he, hn⟩ := h.entry u j hj
    rw [hvirtuals, Array.getElem?_modify, he]
    by_cases e : i = j
    · subst e
      -- an index has one key
      have hsnd : (n.keys.map Prod.snd).Nodup := h.indices ▸ nodup_reverse.2 nodup_range
      have huv : u = v := congrArg Prod.fst (inj_on_of_nodup_map hsnd hj hkey rfl)
      subst huv
      cases hs.symm.trans ht
      exact ⟨s, nums, hs, by simp [Shape.withItems], .inr hnums⟩
    · refine ⟨t, old, ht, by simp [e], hn.imp (fun hj => ?_) fun hn => hn.imp fun _ _ => hext.stands⟩
      exact (mem_cons.1 hj).resolve_left fun e' => e e'.symm

theorem mapM_spec {k : Nat} (f : Option Value → NumberM Tagged) (vs : List (Option Value))
    (hf : ∀ v ∈ vs, ∀ n, Consistent resolve values opened n → k ≤ n.keys.length → Numbered resolve values opened n v (f v n)) {n : Numbering}
    (hn : Consistent resolve values opened n) (hk : k ≤ n.keys.length) :
    n.Extends (vs.mapM f n).2 ∧ Consistent resolve values opened (vs.mapM f n).2 ∧
      List.Forall₂ ((vs.mapM f n).2.Stands resolve) vs (vs.mapM f n).1 := by
  induction vs generalizing n with
  | nil => exact ⟨.refl n, hn, .nil⟩
  | cons v vs ih =>
    rw [mapM_cons]
    have hone := hf v (mem_cons_self ..) n hn hk
    have hrest := ih (fun u hu => hf u (mem_cons_of_mem _ hu)) hone.consistent (Nat.le_trans hk hone.extend.keys.length_le)
    exact ⟨hone.extend.trans hrest.1, hrest.2.1, .cons (hrest.1.stands hone.stands) hrest.2.2⟩

/-- Every value gets a number that stands for it, as long as the depth is not less than the number of virtual
objects that are left. -/
theorem number_spec (hclosed : Closed resolve values) (fuel : Nat) {v : Option Value} (hv : ∀ u, v = some u → u ∈ values)
    (hn : Consistent resolve values opened n) (hfuel : (virtualsOf resolve values).length < fuel + n.keys.length) :
    Numbered resolve values opened n v (NumberM.number resolve fuel v n) := by
  induction fuel generalizing v n opened with
  | zero =>
    have := hn.keys_length_le
    omega
  | succ fuel ih =>
    cases v with
    | none => exact ⟨.refl n, hn, .hole⟩
    | some v =>
      have hmem := hv v rfl
      unfold NumberM.number
      rcases hs : resolve v with (_ | b | c) | s
      · exact ⟨.refl n, hn, .lost hs⟩
      · exact addBox_spec hn hmem hs
      · exact numberConst_spec hn hmem hs
      · have reading (f : Numbering → NumberM Tagged) : (get >>= f) n = f n n := rfl
        dsimp only
        rw [reading]
        cases hkey : n.keys.lookup v with
        | some i => exact ⟨.refl n, hn, .virtual hs (Entries.mem_of_lookup hkey)⟩
        | none =>
          obtain ⟨hext₁, hn₁⟩ := hn.enter hmem hs (Entries.not_mem_of_lookup hkey)
          have hlen : (NumberM.enterVirtual v s n).2.keys.length = n.keys.length + 1 := rfl
          obtain ⟨hext₂, hn₂, hnums⟩ := mapM_spec (k := n.keys.length + 1) (.number resolve fuel) s.items (fun u hu m hm hk =>
            ih (fun w hw => hclosed v hmem s hs w (hw ▸ hu)) hm (by omega)) hn₁ (Nat.le_of_eq hlen.symm)
          have hin : (v, n.data.virtuals.size) ∈ (s.items.mapM (NumberM.number resolve fuel) (NumberM.enterVirtual v s n).2).2.keys :=
            hext₂.keys.mem (mem_cons_self ..)
          obtain ⟨hext₃, hn₃⟩ := hn₂.fill hs hin hnums
          exact ⟨hext₁.trans (hext₂.trans hext₃), hn₃, .virtual hs (hext₃.keys.mem hin)⟩

end Numbering

/-! ## The data of a guard -/

/-- The target of a store is no virtual object. -/
def Grounded (resolve : Value → Resolved) (v : Option Value) : Prop := ∀ u, v = some u → (resolve u).isVirtual = false

theorem Stands.tag_ne_virtual {resolve : Value → Resolved} {consts : Array Const} {live : Array Box} {keys : List (Value × Nat)}
    {v : Option Value} {x : Tagged} (h : Stands resolve consts live keys v x) (hv : Grounded resolve v) : x.tag ≠ .virtual := by
  cases h with
  | virtual hs _ =>
    have := hv _ rfl
    rw [hs] at this
    cases this
  | _ => simp [Tagged.unassigned, Tagged.tag_make]

/-- The numbers of a store that was put off. -/
structure StandsFor (resolve : Value → Resolved) (data : ResumeData) (keys : List (Value × Nat)) (p : Pending (Option Value))
    (q : Pending Tagged) : Prop where
  descr : q.descr = p.descr
  index : q.index = p.index
  target : Stands resolve data.consts data.live keys p.target q.target
  value : Stands resolve data.consts data.live keys p.value q.value

/-- Resume data encode what a guard saves; the virtual objects are in the order of `keys`. -/
structure Encodes (resolve : Value → Resolved) (values : List Value) (fail : List (Option Value)) (pending : List (Pending (Option Value)))
    (data : ResumeData) (keys : List (Value × Nat)) : Prop where
  indices : keys.map Prod.snd = (List.range data.virtuals.size).reverse
  nodup : (keys.map Prod.fst).Nodup
  mem : ∀ e ∈ keys, e.1 ∈ values
  entry : ∀ v i, (v, i) ∈ keys → ∃ s nums, resolve v = .virtual s ∧ data.virtuals[i]? = some (s.withItems nums) ∧
    List.Forall₂ (Stands resolve data.consts data.live keys) s.items nums
  numbering : List.Forall₂ (Stands resolve data.consts data.live keys) fail data.numbering
  pending : List.Forall₂ (StandsFor resolve data keys) pending data.pending
  consts_nodup : data.consts.toList.Nodup
  live_nodup : data.live.toList.Nodup
  consts_le : data.consts.size ≤ values.length
  live_le : data.live.size ≤ values.length
  virtuals_le : data.virtuals.size ≤ values.length

/-- Tagged words have room for the places in the tables. -/
def ResumeData.Fits (data : ResumeData) : Prop := data.consts.size ≤ 536870912 ∧ data.live.size ≤ 536870912 ∧ data.virtuals.size ≤ 536870912

section Build

variable {resolve : Value → Resolved} {values : List Value} {n : Numbering}

theorem Consistent.start (resolve : Value → Resolved) (values : List Value) : Consistent resolve values [] {} where
  indices := rfl
  nodup := nodup_nil
  mem _ h := by cases h
  entry _ _ h := by cases h
  consts_nodup := nodup_nil
  consts_mem _ h := by cases h
  live_nodup := nodup_nil
  live_mem _ h := by cases h

/-- Different constants, and different boxes, come from different values. -/
theorem Consistent.sizes (h : Consistent resolve values [] n) :
    n.data.consts.size ≤ values.length ∧ n.data.live.size ≤ values.length ∧ n.data.virtuals.size ≤ values.length := by
  have hle {α : Type} {xs : List α} {f : α → Resolved} (hf : Function.Injective f) (hd : xs.Nodup)
      (hmem : ∀ x ∈ xs, ∃ v ∈ values, resolve v = f x) : xs.length ≤ values.length := by
    have hsub : xs.map f ⊆ values.map resolve := by
      intro y hy
      obtain ⟨x, hx, rfl⟩ := mem_map.1 hy
      exact mem_map.2 (hmem x hx)
    simpa using (subperm_of_subset (hd.map hf) hsub).length_le
  refine ⟨?_, ?_, ?_⟩
  · exact hle (f := fun c => .value (some (.const c))) (fun c d e => by simpa using e) h.consts_nodup h.consts_mem
  · exact hle (f := fun b => .value (some (.box b))) (fun b d e => by simpa using e) h.live_nodup h.live_mem
  · rw [← h.keys_length]
    exact Nat.le_trans h.keys_length_le (length_filter_le ..)

/-- What a guard mentions is among some values, and it stores into no virtual object. -/
structure Mentions (resolve : Value → Resolved) (values : List Value) (fail : List (Option Value))
    (pending : List (Pending (Option Value))) : Prop where
  closed : Closed resolve values
  fail : ∀ v, some v ∈ fail → v ∈ values
  target : ∀ p ∈ pending, ∀ v, p.target = some v → v ∈ values
  value : ∀ p ∈ pending, ∀ v, p.value = some v → v ∈ values
  grounded : ∀ p ∈ pending, Grounded resolve p.target

/-- The stores that were put off are numbered after the saved values. -/
theorem foldlM_pending {fuel : Nat} (hm : Mentions resolve values [] pending) (hfuel : (virtualsOf resolve values).length < fuel)
    (hn : Consistent resolve values [] n) (out : List (Pending Tagged)) : ∃ n' stores, pending.foldlM (fun (s, out) p => do
        let (target, s) := (NumberM.number resolve fuel p.target).run s
        if target.tag = .virtual then
          throw (.plain s!"pending field {describe p.descr} stores into a virtual")
        let (value, s) := (NumberM.number resolve fuel p.value).run s
        pure (s, out ++ [{ descr := p.descr, target, value, index := p.index : Pending Tagged }])) (n, out) =
        (.ok (n', out ++ stores) : Except Failure _) ∧
      n.Extends n' ∧ Consistent resolve values [] n' ∧ List.Forall₂ (StandsFor resolve n'.data n'.keys) pending stores := by
  induction pending generalizing n out with
  | nil => exact ⟨n, [], by simp [pure, Except.pure], .refl n, hn, .nil⟩
  | cons p rest ih =>
    have hp : p ∈ p :: rest := mem_cons_self ..
    have htarget := number_spec hm.closed fuel (hm.target p hp) hn (by omega)
    rcases ht : NumberM.number resolve fuel p.target n with ⟨target, n₁⟩
    rw [ht] at htarget
    have hvalue := number_spec hm.closed fuel (hm.value p hp) htarget.consistent (by omega)
    rcases hv : NumberM.number resolve fuel p.value n₁ with ⟨value, n₂⟩
    rw [hv] at hvalue
    have hground := htarget.stands.tag_ne_virtual (hm.grounded p hp)
    have hrest : Mentions resolve values [] rest :=
      ⟨hm.closed, fun _ h => absurd h not_mem_nil, fun q hq => hm.target q (mem_cons_of_mem _ hq),
        fun q hq => hm.value q (mem_cons_of_mem _ hq), fun q hq => hm.grounded q (mem_cons_of_mem _ hq)⟩
    obtain ⟨n', stores, he, hext, hn', hstores⟩ := ih hrest hvalue.consistent (out ++ [⟨p.descr, target, value, p.index⟩])
    refine ⟨n', ⟨p.descr, target, value, p.index⟩ :: stores, ?_, htarget.extend.trans (hvalue.extend.trans hext), hn', .cons ?_ hstores⟩
    · rw [foldlM_cons]
      dsimp only [StateT.run] at he ⊢
      rw [ht]
      dsimp only
      rw [if_neg hground, hv, append_cons]
      exact he
    · exact ⟨rfl, rfl, hext.stands (hvalue.extend.stands htarget.stands), hext.stands hvalue.stands⟩

/-- **Building resume data.** -/
theorem build_spec {fuel : Nat} {fail : List (Option Value)} (hm : Mentions resolve values fail pending)
    (hfuel : (virtualsOf resolve values).length < fuel) :
    ∃ data keys, ResumeData.build resolve fuel describe fail pending = .ok data ∧ Encodes resolve values fail pending data keys := by
  have hnumber := mapM_spec (k := 0) (NumberM.number resolve fuel) fail (fun v hv n hn _ =>
    number_spec hm.closed fuel (fun u hu => hm.fail u (hu ▸ hv)) hn (by omega)) (.start resolve values)
    (Nat.zero_le _)
  rcases hr : fail.mapM (NumberM.number resolve fuel) {} with ⟨numbering, n⟩
  rw [hr] at hnumber
  obtain ⟨-, hn, hfail⟩ := hnumber
  obtain ⟨n', stores, he, hext, hn', hstores⟩ := foldlM_pending describe
    ⟨hm.closed, fun _ h => absurd h not_mem_nil, hm.target, hm.value, hm.grounded⟩ hfuel hn []
  obtain ⟨hconsts, hlive, hvirtuals⟩ := hn'.sizes
  refine ⟨{ n'.data with numbering, pending := stores }, n'.keys, ?_, hn'.indices, hn'.nodup, hn'.mem, ?_, hfail.imp fun _ _ => hext.stands,
    hstores.imp fun _ _ h => ⟨h.descr, h.index, h.target, h.value⟩, hn'.consts_nodup, hn'.live_nodup, hconsts, hlive, hvirtuals⟩
  · unfold ResumeData.build
    rw [StateT.run, hr]
    exact congrArg (· >>= fun r => pure { r.1.data with numbering, pending := r.2 }) he
  · intro v i hi
    obtain ⟨s, nums, hs, hget, hnums⟩ := hn'.entry v i hi
    exact ⟨s, nums, hs, hget, hnums.resolve_left not_mem_nil⟩

end Build

end FlowCompiler.Trace
