import FlowCompiler.Proofs.Flow.Entering
import FlowCompiler.Proofs.Partition

/-!
# Call tables only grow

Families of calls are joined and rows are added to their tables; no row is lost on the way, and what is in one family
stays in one family.
-/

namespace FlowCompiler

open List

/-! ## Rows -/

/-- The rows of a family for a shape of call. -/
def CallFamily.rows (f : CallFamily) (shape : CallShape) : List Row := (f.tables.lookup shape).getD []

variable {f : CallFamily} {shape s : CallShape} {row r : Row}

namespace Ana

theorem rows_addRow (f : CallFamily) (shape s : CallShape) (row : Row) :
    (addRow f shape row).rows s = if s = shape ∧ row ∉ f.rows shape then f.rows s ++ [row] else f.rows s := by
  unfold addRow CallFamily.rows
  cases h : f.tables.lookup shape with
  | none =>
    simp only [Option.getD_none, Option.isSome_none, contains_nil, Bool.false_eq_true, if_false, nil_append]
    rw [Entries.lookup_concat h]
    by_cases hs : s = shape
    · simp [hs, h]
    · simp [hs]
  | some rows =>
    by_cases hrow : row ∈ rows
    · simp [hrow]
    · have found : (f.tables.map fun t => if t.1 = shape then (shape, rows ++ [row]) else t).lookup s =
          if s == shape then some (rows ++ [row]) else f.tables.lookup s := by
        have replaced : (f.tables.map fun t => if t.1 == shape then (shape, rows ++ [row]) else t).lookup s =
            if s == shape then (f.tables.lookup shape).map fun _ => rows ++ [row] else f.tables.lookup s := Entries.lookup_replace
        rw [h] at replaced
        simpa only [beq_iff_eq, Option.map_some] using replaced
      simp only [Option.getD_some, Option.isSome_some, contains_iff_mem, hrow, if_false, if_true, found]
      by_cases hs : s = shape
      · simp [hs, h]
      · simp [hs]

theorem mem_rows_addRow : r ∈ (addRow f shape row).rows s ↔ r ∈ f.rows s ∨ s = shape ∧ r = row := by
  rw [rows_addRow]
  by_cases hs : s = shape
  · subst hs
    by_cases hrow : row ∈ f.rows s
    · simp only [hrow, not_true_eq_false, and_false, if_false, true_and]
      exact ⟨.inl, fun h => h.elim id fun e => e ▸ hrow⟩
    · simp [hrow]
  · simp [hs]

theorem mem_rows_absorbCalls {f g : CallFamily} : r ∈ (absorbCalls f g).rows s ↔ r ∈ f.rows s ∨ ∃ rows, (s, rows) ∈ g.tables ∧ r ∈ rows := by
  have addRows (rows : List Row) (shape : CallShape) (f : CallFamily) :
      r ∈ (rows.foldl (fun f row => addRow f shape row) f).rows s ↔ r ∈ f.rows s ∨ s = shape ∧ r ∈ rows := by
    induction rows generalizing f with
    | nil => simp
    | cons row rows ih =>
      rw [foldl_cons, ih, mem_rows_addRow, mem_cons, or_assoc, and_or_left]
  have addTables (tables : List (CallShape × List Row)) (f : CallFamily) :
      r ∈ (tables.foldl (fun f t => t.2.foldl (fun f row => addRow f t.1 row) f) f).rows s ↔
        r ∈ f.rows s ∨ ∃ rows, (s, rows) ∈ tables ∧ r ∈ rows := by
    induction tables generalizing f with
    | nil => simp
    | cons t tables ih =>
      rw [foldl_cons, ih, addRows, or_assoc]
      refine or_congr_right ⟨?_, ?_⟩
      · rintro (⟨rfl, hr⟩ | ⟨rows, ht, hr⟩)
        · exact ⟨t.2, by simp, hr⟩
        · exact ⟨rows, by simp [ht], hr⟩
      · rintro ⟨rows, ht, hr⟩
        rcases mem_cons.1 ht with rfl | ht
        · exact .inl ⟨rfl, hr⟩
        · exact .inr ⟨rows, ht, hr⟩
  exact addTables g.tables _

theorem mem_rows_record : r ∈ (f.record shape row).rows s ↔ r ∈ f.rows s ∨ row ≠ [] ∧ s = shape ∧ r = row := by
  unfold CallFamily.record
  split
  · rename_i h
    simp [CallFamily.rows, isEmpty_iff.1 h]
  · rename_i h
    rw [mem_rows_addRow]
    simp [CallFamily.rows, isEmpty_iff.not.1 h]

theorem mem_tables_of_rows (h : r ∈ f.rows s) : ∃ rows, (s, rows) ∈ f.tables ∧ r ∈ rows := by
  unfold CallFamily.rows at h
  cases e : f.tables.lookup s with
  | none => simp [e] at h
  | some rows =>
    rw [e] at h
    obtain ⟨before, after, ht, -⟩ := lookup_eq_some_iff.1 e
    exact ⟨rows, by simp [ht], h⟩

end Ana

/-! ## Families -/

namespace World

/-- The number of the family of a row key. -/
def familyOf? (w : World) (k : DescId) : Option Nat := w.callPartition.classInfo? k

def family (w : World) (i : Nat) : CallFamily := (w.callFamilies[i]?).getD default

/-- The rows that calls of a row key find for a shape. -/
def rowsOf (w : World) (k : DescId) (shape : CallShape) : List Row :=
  match w.familyOf? k with
  | some i => (w.family i).rows shape
  | none => []

theorem rowsOf_eq {w : World} {k : DescId} {i : Nat} (h : w.familyOf? k = some i) (shape : CallShape) :
    w.rowsOf k shape = (w.family i).rows shape := by
  rw [rowsOf, h]

/-- The state with other families of calls. -/
def withFamilies (w : World) (p : Partition DescId Nat) (fs : Array CallFamily) : World := { w with callPartition := p, callFamilies := fs }

theorem family_modify {w : World} {i l : Nat} (f : CallFamily → CallFamily) (p : Partition DescId Nat) (hl : l < w.callFamilies.size) :
    (w.withFamilies p (w.callFamilies.modify i f)).family l = if i = l then f (w.family l) else w.family l := by
  rw [family, withFamilies, Array.getElem?_modify, family, Array.getElem?_eq_getElem hl]
  split <;> rfl

/-- Families of calls are classes of row keys. -/
structure Parted (w : World) : Prop where
  wf : w.callPartition.Wf
  index : ∀ {k : DescId} {i : Nat}, k ∈ w.callPartition.parent → w.familyOf? k = some i → i < w.callFamilies.size

theorem Parted.of_empty {w : World} (hp : w.callPartition.parent = {}) (hi : w.callPartition.info = []) : w.Parted := by
  refine ⟨⟨fun {k} hk => ?_, fun {r} => ?_⟩, fun {k i} hk => ?_⟩
  · simp [hp] at hk
  · simp [hp, hi, Partition.infoOf?]
  · simp [hp] at hk

/-- A later state in which no row has been lost and no family has come apart. -/
structure Tabled (w w' : World) : Prop where
  parted : w'.Parted
  coarser : w.callPartition.Coarser w'.callPartition
  rows : ∀ {k : DescId} {shape : CallShape} {row : Row}, k ∈ w.callPartition.parent → row ∈ w.rowsOf k shape → row ∈ w'.rowsOf k shape

namespace Tabled

variable {w w' w'' : World}

theorem trans (h : w.Tabled w') (h' : w'.Tabled w'') : w.Tabled w'' where
  parted := h'.parted
  coarser := h.coarser.trans h'.coarser
  rows hk hr := h'.rows (h.coarser.mem hk) (h.rows hk hr)

theorem of_eq (hw : w.Parted) (hp : w'.callPartition = w.callPartition) (hf : w'.callFamilies = w.callFamilies) : w.Tabled w' := by
  have family : w'.familyOf? = w.familyOf? := funext fun k => by rw [familyOf?, familyOf?, hp]
  refine ⟨⟨hp ▸ hw.wf, fun {k i} hk hi => ?_⟩, ?_, fun {k shape row} _ hr => ?_⟩
  · rw [hf]
    exact hw.index (hp ▸ hk) (family ▸ hi)
  · rw [hp]
    exact .refl _
  · rw [rowsOf, family]
    simpa only [rowsOf, World.family, hf] using hr

/-- The rows of a family are found in the family that its members have then. -/
theorem of_coarser (hw : w.Parted) (wf : w'.callPartition.Wf) (coarser : w.callPartition.Coarser w'.callPartition)
    (index : ∀ {k i}, k ∈ w'.callPartition.parent → w'.familyOf? k = some i → i < w'.callFamilies.size)
    (rows : ∀ {k i}, k ∈ w.callPartition.parent → w.familyOf? k = some i → ∃ j, w'.familyOf? k = some j ∧
      ∀ {shape row}, row ∈ (w.family i).rows shape → row ∈ (w'.family j).rows shape) : w.Tabled w' where
  parted := ⟨wf, index⟩
  coarser := coarser
  rows {k shape row} hk hr := by
    obtain ⟨i, hi⟩ := hw.wf.exists_classInfo hk
    obtain ⟨j, hj, h⟩ := rows hk hi
    rw [rowsOf_eq hi] at hr
    rw [rowsOf_eq hj]
    exact h hr

end Tabled
end World

namespace Ana

variable {w w' : World} {k : Knot}

theorem callFamilyOf_spec (hw : w.Parted) (d : DescId) (k : Knot) : ∃ i p fs, callFamilyOf d k w = .ok i (w.withFamilies p fs) ∧
    w.Tabled (w.withFamilies p fs) ∧ w.rowKey d ∈ p.parent ∧ p.classInfo? (w.rowKey d) = some i := by
  obtain ⟨p, i, e, wf, ext, hmem, hinfo, hfresh⟩ := hw.wf.find (w.rowKey d) w.callFamilies.size
  have he : callFamilyOf d k w = .ok i (w.withFamilies p (if w.callPartition.contains (w.rowKey d) then w.callFamilies
      else w.callFamilies.push { descs := [w.rowKey d] })) := by
    change EStateM.Result.ok (w.callPartition.find (w.rowKey d) w.callFamilies.size).2.2
      (w.withFamilies (w.callPartition.find (w.rowKey d) w.callFamilies.size).1 _) = _
    rw [e]
  have old {x : DescId} {j : Nat} (hx : x ∈ w.callPartition.parent) (hj : p.classInfo? x = some j) : j < w.callFamilies.size :=
    hw.index hx ((ext.classInfo? hw.wf hx).symm.trans hj)
  refine ⟨i, p, _, he, ?_, (hmem _).2 (.inr rfl), hinfo⟩
  split
  · rename_i hknown
    refine .of_coarser hw wf ext.coarser (fun {x j} hx hj => ?_) fun hx hj => ⟨_, (ext.classInfo? hw.wf hx).trans hj, id⟩
    rcases (hmem x).1 hx with hx | rfl
    · exact old hx hj
    · exact old (Std.HashMap.mem_iff_contains.2 hknown) hj
  · rename_i hknown
    obtain rfl := hfresh fun h => hknown (Std.HashMap.mem_iff_contains.1 h)
    refine .of_coarser hw wf ext.coarser (fun {x j} hx hj => ?_) fun {x j} hx hj => ⟨j, (ext.classInfo? hw.wf hx).trans hj, fun hr => ?_⟩
    · change j < (w.callFamilies.push _).size
      rw [Array.size_push]
      rcases (hmem x).1 hx with hx | rfl
      · exact Nat.lt_succ_of_lt (old hx hj)
      · have hj : p.classInfo? (w.rowKey d) = some j := hj
        rw [hinfo] at hj
        cases hj
        exact Nat.lt_succ_self _
    · have hlt := hw.index hx hj
      rw [World.family, World.withFamilies, Array.getElem?_push_lt hlt, ← Array.getElem?_eq_getElem hlt]
      exact hr

theorem joinFamilies_spec (hw : w.Parted) {d e : DescId} (hd : w.rowKey d ∈ w.callPartition.parent)
    (he : w.rowKey e ∈ w.callPartition.parent) : ∃ p fs, w.joinFamilies d e = w.withFamilies p fs ∧ w.Tabled (w.withFamilies p fs) ∧
      p.rep (w.rowKey d) = p.rep (w.rowKey e) := by
  obtain ⟨wf, joins⟩ := hw.wf.join hd he
  unfold World.joinFamilies
  rcases hjoin : w.callPartition.join (w.rowKey d) (w.rowKey e) with ⟨p, moved⟩
  rw [hjoin] at wf joins
  cases moved with
  | none =>
    have same {k : DescId} (hk : k ∈ w.callPartition.parent) : p.classInfo? k = w.familyOf? k := (joins.info hk).elim id fun ⟨_, _, h, _⟩ => nomatch h
    refine ⟨p, w.callFamilies, rfl, .of_coarser hw wf joins.coarser (fun hk hi => ?_) fun hk hi => ⟨_, (same hk).trans hi, id⟩, joins.joined⟩
    exact hw.index (joins.mem hk) ((same (joins.mem hk)).symm.trans hi)
  | some ij =>
    obtain ⟨i, j⟩ := ij
    have ends : i < w.callFamilies.size ∧ j < w.callFamilies.size := by
      rcases joins.ends rfl with ⟨hi, hj⟩ | ⟨hi, hj⟩
      · exact ⟨hw.index hd hi, hw.index he hj⟩
      · exact ⟨hw.index he hi, hw.index hd hj⟩
    have absorbs {l : Nat} {shape : CallShape} {row : Row} (hl : l < w.callFamilies.size) (hr : row ∈ (w.family l).rows shape) :
        row ∈ ((w.withFamilies p (w.callFamilies.modify i fun f => absorbCalls f (w.family j))).family l).rows shape := by
      rw [World.family_modify _ _ hl]
      split
      · exact mem_rows_absorbCalls.2 (.inl hr)
      · exact hr
    refine ⟨p, _, rfl, .of_coarser hw wf joins.coarser (fun {x l} hx hl => ?_) fun {x l} hx hl => ?_, joins.joined⟩
    · change l < (w.callFamilies.modify i _).size
      rw [Array.size_modify]
      rcases joins.info (joins.mem hx) with h | ⟨_, _, h, h', -⟩
      · exact hw.index (joins.mem hx) (h.symm.trans hl)
      · cases h
        cases h'.symm.trans hl
        exact ends.1
    · rcases joins.info hx with h | ⟨_, _, h, h', hfrom⟩
      · exact ⟨l, h.trans hl, absorbs (hw.index hx hl)⟩
      · cases h
        refine ⟨i, h', fun {shape row} hr => ?_⟩
        rcases hfrom with hfrom | hfrom
        · cases hfrom.symm.trans hl
          exact absorbs ends.1 hr
        · cases hfrom.symm.trans hl
          rw [World.family_modify _ _ ends.1, if_pos rfl]
          exact mem_rows_absorbCalls.2 (.inr (mem_tables_of_rows hr))

/-- A description that has been joined to another one is in one family with it. -/
theorem joinTo_spec (hw : w.Parted) {d : DescId} (hd : w.rowKey d ∈ w.callPartition.parent) (e : DescId) (k : Knot) : ∃ p fs,
    joinTo d e k w = .ok ⟨⟩ (w.withFamilies p fs) ∧ w.Tabled (w.withFamilies p fs) ∧ w.rowKey e ∈ p.parent ∧
      p.rep (w.rowKey e) = p.rep (w.rowKey d) := by
  obtain ⟨i, p₁, fs₁, e₁, t₁, he, -⟩ := callFamilyOf_spec hw e k
  obtain ⟨p, fs, e₂, t₂, joined⟩ := joinFamilies_spec t₁.parted (d := d) (t₁.coarser.mem hd) he
  refine ⟨p, fs, ?_, t₁.trans t₂, t₂.coarser.mem he, joined.symm⟩
  rw [joinTo, bind_of_ok e₁]
  exact congrArg (EStateM.Result.ok PUnit.unit) e₂

/-- **All that may be called at one place** is in one family from then on. -/
theorem mergeCallFamilies_spec (hw : w.Parted) (ds : List DescId) (k : Knot) : ∃ p fs,
    mergeCallFamilies ds k w = .ok ⟨⟩ (w.withFamilies p fs) ∧ w.Tabled (w.withFamilies p fs) ∧
      (∀ d ∈ ds, w.rowKey d ∈ p.parent) ∧ ∀ d ∈ ds, ∀ e ∈ ds, p.rep (w.rowKey d) = p.rep (w.rowKey e) := by
  have joinAll (d : DescId) (es : List DescId) {w : World} (hw : w.Parted) (hd : w.rowKey d ∈ w.callPartition.parent) : ∃ p fs,
      (es.forM (joinTo d) : Ana PUnit) k w = .ok ⟨⟩ (w.withFamilies p fs) ∧ w.Tabled (w.withFamilies p fs) ∧
        ∀ e ∈ es, w.rowKey e ∈ p.parent ∧ p.rep (w.rowKey e) = p.rep (w.rowKey d) := by
    induction es generalizing w with
    | nil => exact ⟨_, _, rfl, .of_eq hw rfl rfl, nofun⟩
    | cons e es ih =>
      obtain ⟨p₁, fs₁, e₁, t₁, he, joined⟩ := joinTo_spec hw hd e k
      have hd₁ : w.rowKey d ∈ p₁.parent := t₁.coarser.mem hd
      obtain ⟨p, fs, e₂, t₂, h⟩ := ih t₁.parted hd₁
      exact ⟨p, fs, (bind_of_ok e₁).trans e₂, t₁.trans t₂, forall_mem_cons.2 ⟨⟨t₂.coarser.mem he, t₂.coarser.rep he hd₁ joined⟩, h⟩⟩
  cases ds with
  | nil => exact ⟨_, _, rfl, .of_eq hw rfl rfl, nofun, nofun⟩
  | cons d rest =>
    obtain ⟨i, p₁, fs₁, e₁, t₁, hd, -⟩ := callFamilyOf_spec hw d k
    obtain ⟨p, fs, e₂, t₂, h⟩ := joinAll d rest t₁.parted hd
    have same {x : DescId} (hx : x ∈ d :: rest) : w.rowKey x ∈ p.parent ∧ p.rep (w.rowKey x) = p.rep (w.rowKey d) := by
      rcases mem_cons.1 hx with rfl | hx
      · exact ⟨t₂.coarser.mem (k := w.rowKey x) hd, rfl⟩
      · exact h x hx
    refine ⟨p, fs, ?_, t₁.trans t₂, fun x hx => (same hx).1, fun x hx y hy => (same hx).2.trans (same hy).2.symm⟩
    rw [mergeCallFamilies_cons, bind_of_ok e₁]
    exact e₂

theorem recordRow_spec (hw : w.Parted) (i : Nat) (shape : CallShape) (row : Row) : w.Tabled (w.recordRow i shape row) ∧
    (row ≠ [] → ∀ {x : DescId}, x ∈ w.callPartition.parent → w.familyOf? x = some i → row ∈ (w.recordRow i shape row).rowsOf x shape) := by
  have hfamily {l : Nat} (hl : l < w.callFamilies.size) : (w.recordRow i shape row).family l =
      if i = l then (w.family l).record shape row else w.family l := World.family_modify _ w.callPartition hl
  have size : (w.recordRow i shape row).callFamilies.size = w.callFamilies.size := Array.size_modify
  refine ⟨.of_coarser hw hw.wf (.refl _) (fun hk hi => size ▸ hw.index hk hi) fun {x l} hx hl => ⟨l, hl, fun {s r} hr => ?_⟩, ?_⟩
  · rw [hfamily (hw.index hx hl)]
    split
    · exact mem_rows_record.2 (.inl hr)
    · exact hr
  · intro hrow x hx hi
    have hi' : (w.recordRow i shape row).familyOf? x = some i := hi
    rw [World.rowsOf_eq hi', hfamily (hw.index hx hi), if_pos rfl]
    exact mem_rows_record.2 (.inr ⟨hrow, rfl, rfl⟩)

/-! ## Steps -/

/-- Every step of the analysis only adds to the call tables. -/
instance : FlowFrame fun w w' => w.Parted → w.Tabled w' where
  trans h h' hw := (h hw).trans (h' (h hw).parted)
  idle h hw := .of_eq hw h.callPartition h.callFamilies
  calm h hw := .of_eq hw h.callPartition h.callFamilies
  graphs _ hw := .of_eq hw rfl rfl
  enter k g b cells := by
    refine ⟨fun w hw => ?_⟩
    rcases addPendingBlock_enters g b cells k w with h | ⟨w₁, cells, h₁, h₂, -⟩
    · exact .of_eq hw h.callPartition h.callFamilies
    · exact .of_eq hw (h₂.callPartition.trans h₁.callPartition) (h₂.callFamilies.trans h₁.callFamilies)
  family k d := by
    refine ⟨fun w hw => ?_⟩
    obtain ⟨i, p, fs, e, h, -⟩ := callFamilyOf_spec hw d k
    rwa [after_of_ok e]
  join w d e hw := by
    by_cases h : w.rowKey d ∈ w.callPartition.parent ∧ w.rowKey e ∈ w.callPartition.parent
    · obtain ⟨p, fs, e, h, -⟩ := joinFamilies_spec hw h.1 h.2
      rwa [e]
    · rw [World.joinFamilies, hw.wf.join_unknown (not_and_or.1 h)]
      exact .of_eq hw rfl rfl
  row w i shape row hw := (recordRow_spec hw i shape row).1
  site k pos := ⟨fun w hw => .of_eq hw rfl rfl⟩
  bind k v a := by
    refine ⟨fun w hw => ?_⟩
    obtain ⟨w₁, h, e | ⟨u, e⟩⟩ := setBinding_binds v a k w
    · exact e ▸ .of_eq hw h.callPartition h.callFamilies
    · exact e ▸ .of_eq hw h.callPartition h.callFamilies
  unreturned w v _ hw := .of_eq hw rfl rfl
  take k := by
    refine ⟨fun w hw => ?_⟩
    obtain ⟨pending, queue, back, e⟩ := after_takePending k w
    exact e ▸ .of_eq hw rfl rfl

end Ana
end FlowCompiler
