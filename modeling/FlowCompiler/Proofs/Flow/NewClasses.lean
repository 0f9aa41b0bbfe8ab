import FlowCompiler.Proofs.Flow.Entering

/-!
# Classes that come

A class definition is made when its class is first asked for, and is added below that of its base.  Whatever the analysis does, classes
go on forming trees, those that are there keep their bases, and a class definition that is asked for is there afterwards.
-/

namespace FlowCompiler

/-! ## A new class in the tree -/

namespace World

variable {w w' w'' : World} {t : ClassDef}

/-- A class whose base lists one more class. -/
def listing (c : ClassDefId) (t : ClassDef) : ClassDef := { t with subs := t.subs ++ [c] }

/-- The state with one more class, which its base lists. -/
def added (w : World) (t : ClassDef) : World :=
  let w' := { w with classDefs := w.classDefs.push t }
  match t.base with
  | some b => w'.updateClassDef b (listing (w.classDefs.size + 1))
  | none => w'

theorem size_added : (added w t).classDefs.size = w.classDefs.size + 1 := by
  unfold added
  split <;> simp [updateClassDef]

theorem descs_added : (added w t).descs = w.descs := by
  unfold added
  split <;> rfl

theorem progress_added : (added w t).progress = w.progress := by
  unfold added
  cases t.base <;> rfl

variable {c : Nat}

theorem defined_added : (added w t).Defined c ↔ w.Defined c ∨ c = w.classDefs.size + 1 := by
  rw [Defined, Defined, size_added]
  omega

theorem not_defined_new : ¬ w.Defined (w.classDefs.size + 1) := fun h => Nat.lt_irrefl _ h.2

section

variable (hb : ∀ b ∈ t.base, w.Defined b)
include hb

theorem classDef_added_self : (added w t).classDef (w.classDefs.size + 1) = t := by
  have hpush : ({ w with classDefs := w.classDefs.push t } : World).classDef (w.classDefs.size + 1) = t := by
    simp [classDef]
  unfold added
  split
  · rename_i b hbase
    have hd := hb b hbase
    rw [classDef_updateClassDef, if_neg (Nat.ne_of_lt (Nat.lt_succ_of_le hd.2)), hpush]
    · exact ⟨hd.1, by simpa using Nat.le_succ_of_le hd.2⟩
    · exact ⟨Nat.succ_pos _, by simp⟩
  · exact hpush

theorem classDef_added (hc : w.Defined c) :
    (added w t).classDef c = if t.base = some c then listing (w.classDefs.size + 1) (w.classDef c) else w.classDef c := by
  have hlt : c - 1 < w.classDefs.size := Nat.lt_of_lt_of_le (Nat.sub_lt hc.1 Nat.one_pos) hc.2
  have hpush : ({ w with classDefs := w.classDefs.push t } : World).classDef c = w.classDef c := by
    simp only [classDef, Array.getElem?_push_lt hlt, Array.getElem?_eq_getElem hlt]
  have hdef {b : Nat} (hb : w.Defined b) : ({ w with classDefs := w.classDefs.push t } : World).Defined b :=
    ⟨hb.1, by simpa using Nat.le_succ_of_le hb.2⟩
  unfold added
  split
  · rename_i b hbase
    rw [classDef_updateClassDef (hdef (hb b hbase)) (hdef hc), hpush, hbase]
    simp only [Option.some.injEq]
  · rename_i hbase
    rw [hpush, hbase]
    rfl

theorem base_added (hc : w.Defined c) : ((added w t).classDef c).base = (w.classDef c).base := by
  rw [classDef_added hb hc]
  split <;> rfl

theorem tree_added (hw : w.Tree) (hs : t.subs = []) : (added w t).Tree := by
  constructor
  · intro c b hc hbase
    rcases defined_added.1 hc with hc | rfl
    · rw [base_added hb hc] at hbase
      exact hw.base hc hbase
    · rw [classDef_added_self hb] at hbase
      exact ⟨(hb b hbase).1, Nat.lt_succ_of_le (hb b hbase).2⟩
  · intro c c' hc
    rcases defined_added.1 hc with hc | rfl
    · have hold : c' ∈ (w.classDef c).subs ↔ w.Defined c' ∧ (w.classDef c').base = some c := hw.subs hc
      have hnew : c' ∈ ((added w t).classDef c).subs ↔ c' ∈ (w.classDef c).subs ∨ t.base = some c ∧ c' = w.classDefs.size + 1 := by
        rw [classDef_added hb hc]
        split
        · rename_i e
          simp [listing, e]
        · rename_i e
          simp [e]
      rw [hnew, hold]
      constructor
      · rintro (⟨hd, hbase⟩ | ⟨hbase, rfl⟩)
        · exact ⟨defined_added.2 (.inl hd), (base_added hb hd).trans hbase⟩
        · exact ⟨defined_added.2 (.inr rfl), (congrArg ClassDef.base (classDef_added_self hb)).trans hbase⟩
      · rintro ⟨hd, hbase⟩
        rcases defined_added.1 hd with hd | rfl
        · exact .inl ⟨hd, (base_added hb hd).symm.trans hbase⟩
        · rw [classDef_added_self hb] at hbase
          exact .inr ⟨hbase, rfl⟩
    · rw [classDef_added_self hb, hs]
      refine ⟨nofun, fun ⟨hd, hbase⟩ => ?_⟩
      -- the new class is above no other one
      rcases defined_added.1 hd with hd | rfl
      · rw [base_added hb hd] at hbase
        exact absurd ⟨(hw.base hd hbase).1, Nat.le_trans (Nat.le_of_lt (hw.base hd hbase).2) hd.2⟩ not_defined_new
      · rw [classDef_added_self hb] at hbase
        exact absurd (hb _ hbase) not_defined_new
  · intro c hc
    rcases defined_added.1 hc with hc | rfl
    · rw [classDef_added hb hc]
      split
      · refine List.nodup_append.2 ⟨hw.nodup hc, List.nodup_singleton _, fun x hx y hy e => ?_⟩
        rw [List.mem_singleton] at hy
        exact not_defined_new (hy ▸ e ▸ ((hw.subs hc).1 hx).1)
      · exact hw.nodup hc
    · rw [classDef_added_self hb, hs]
      exact List.nodup_nil

end

/-! ## Trees that grow -/

/-- Classes form trees, and descriptions know class definitions that are there. -/
structure Rooted (w : World) : Prop where
  tree : w.Tree
  known : ∀ {d c : Nat} {key : String}, (w.desc d).known.lookup key = some c → w.Defined c

/-- A later state in which classes form trees too, and those that were there have the same bases. -/
structure Sprouts (w w' : World) : Prop where
  rooted : w'.Rooted
  size : w.classDefs.size ≤ w'.classDefs.size
  base : ∀ {c : Nat}, w.Defined c → (w'.classDef c).base = (w.classDef c).base
  followed : ∀ {l : LinkId}, l ∈ w.progress.followed → l ∈ w'.progress.followed

namespace Sprouts

theorem refl (hw : w.Rooted) : w.Sprouts w := ⟨hw, Nat.le_refl _, fun _ => rfl, id⟩

theorem trans (h : w.Sprouts w') (h' : w'.Sprouts w'') : w.Sprouts w'' :=
  ⟨h'.rooted, Nat.le_trans h.size h'.size, fun hc => (h'.base (hc.mono h.size)).trans (h.base hc), h'.followed ∘ h.followed⟩

theorem of_tree (h : w.SameTree w') (hk : ∀ d, (w'.desc d).known = (w.desc d).known)
    (hl : ∀ {l : LinkId}, l ∈ w.progress.followed → l ∈ w'.progress.followed) (hw : w.Rooted) : w.Sprouts w' :=
  ⟨⟨h.tree hw.tree, fun e => h.defined.2 (hw.known (hk _ ▸ e))⟩, Nat.le_of_eq h.size.symm, fun _ => h.base _, hl⟩

theorem of_eq (h : w'.classDefs = w.classDefs) (hd : w'.descs = w.descs) (hl : w'.progress.followed = w.progress.followed) :
    w.Rooted → w.Sprouts w' :=
  of_tree (.of_eq h) (fun d => by rw [desc, desc, hd]) fun h => by rwa [hl]

theorem of_idle (h : w.Idle w') : w.Rooted → w.Sprouts w' :=
  of_tree (.of_eq h.classDefs) (fun d => by rw [← known_eq, ← known_eq, h.classDesc]) h.followed

theorem mro (h : w.Sprouts w') (hw : w.Rooted) (hc : w.Defined c) : w'.mro c = w.mro c := by
  induction c using hw.tree.ordered.induct with
  | step c ih =>
    rw [mro_eq h.rooted.tree.ordered, mro_eq hw.tree.ordered, h.base hc]
    cases hb : (w.classDef c).base with
    | none => rfl
    | some b =>
      have hlt := hw.tree.base hc hb
      exact congrArg (c :: ·) (ih b hb ⟨hlt.1, Nat.le_trans (Nat.le_of_lt hlt.2) hc.2⟩)

end Sprouts

/-- The relation that all steps keep to. -/
def Sprouting (w w' : World) : Prop := w.Rooted → w.Sprouts w'

end World

variable {base : Option ClassDefId}

namespace Ana

open World

variable {k : Knot} {w w' : World} {d c : Nat} {key : String}

instance : StaidCallFrame Sprouting where
  trans h h' hw := (h hw).trans (h' (h hw).rooted)
  idle := .of_idle
  staid h := .of_tree h.tree h.known h.followed
  graphs _ := .of_eq rfl rfl rfl
  enter k g b cells := by
    refine ⟨fun w => (addPendingBlock_enters g b cells k w).elim .of_idle fun ⟨w₁, cells, h, h', _⟩ hw => ?_⟩
    have s := Sprouts.of_idle h hw
    have bound : w₁.Sprouts (w₁.bindAll ((w.prog.flow.block b).inputs.zip cells)) := .of_eq rfl rfl rfl s.rooted
    exact (s.trans bound).trans (.of_idle h' bound.rooted)
  family _ _ := ⟨fun _ => .of_eq rfl rfl rfl⟩
  join w d e := by
    unfold World.joinFamilies
    split <;> exact .of_eq rfl rfl rfl
  row _ _ _ _ := .of_eq rfl rfl rfl

instance sprouting_setBinding (v : VarId) (a : Annot) : Along Sprouting k (setBinding v a) := by
  have bind (a : Annot) : Along Sprouting k (bindVar v a) := ⟨fun _ => .of_eq rfl rfl rfl⟩
  refine .seq fun old => ?_
  cases old <;> infer_instance

/-! ## Defining a class -/

/-- A class definition that is asked for is there afterwards. -/
def Defines (k : Knot) : Prop := ∀ {d c : Nat} {key : String} {w w' : World}, w.Rooted → k.classDefOf d key w = .ok c w' → w'.Defined c

/-- A class that its description knows by a key. -/
def knowing (key : String) (c : ClassDefId) (t : ClassDesc) : ClassDesc := { t with classDefs := t.classDefs ++ [(key, c)] }

/-- A new class of a description, below a base. -/
def below (w : World) (d : DescId) (key : String) (base : Option ClassDefId) : ClassDef :=
  { name := (w.classDesc d).name ++ (if key = "" then "" else "<" ++ key ++ ">"), key, desc := d, base }

theorem enterClass_eq (d : DescId) (key : String) (base : Option ClassDefId) (k : Knot) (w : World) :
    enterClass d key base k w = .ok (w.classDefs.size + 1)
      ((added w (below w d key base)).updateClassDesc d (knowing key (w.classDefs.size + 1))) := by
  cases base <;> rfl

theorem lookup_knowing {t : ClassDesc} {key' : String} {c' : ClassDefId} (h : (knowing key c t).classDefs.lookup key' = some c') :
    t.classDefs.lookup key' = some c' ∨ c' = c := by
  rw [knowing, List.lookup_append] at h
  cases ht : t.classDefs.lookup key' with
  | some x =>
    rw [ht] at h
    exact .inl h
  | none =>
    rw [ht, Option.none_or, lookup_cons] at h
    split at h
    · cases h
      exact .inr rfl
    · cases h

theorem enterClass_spec (d : DescId) (key : String) (k : Knot) (hw : w.Rooted) (hb : ∀ b ∈ base, w.Defined b) :
    ∃ w', enterClass d key base k w = .ok (w.classDefs.size + 1) w' ∧ w.Sprouts w' ∧ w'.Defined (w.classDefs.size + 1) := by
  have hb : ∀ b ∈ (below w d key base).base, w.Defined b := hb
  have hnew : (added w (below w d key base)).Defined (w.classDefs.size + 1) := defined_added.2 (.inr rfl)
  have tree := tree_added hb hw.tree rfl
  have size : w.classDefs.size ≤ (added w (below w d key base)).classDefs.size :=
    Nat.le_of_lt (Nat.lt_of_lt_of_eq (Nat.lt_succ_self _) size_added.symm)
  refine ⟨_, enterClass_eq d key base k w,
    ⟨⟨SameTree.tree (w := added w (below w d key base)) (.of_eq rfl) tree, fun {e x key'} h => ?_⟩, size, base_added hb,
      fun {l} h => progress_added (w := w) ▸ h⟩, hnew⟩
  change (((added w (below w d key base)).updateDesc d _).desc e).known.lookup key' = some x at h
  rw [World.desc, updateDesc, Array.getElem?_modify, descs_added] at h
  have old (h : (w.desc e).known.lookup key' = some x) : (added w (below w d key base)).Defined x := defined_added.2 (.inl (hw.known h))
  split at h
  · cases ht : w.descs[e - 1]? with
    | none =>
      rw [ht] at h
      cases h
    | some t =>
      rw [World.desc, ht] at old
      rw [ht] at h
      cases t with
      | cls t =>
        rcases lookup_knowing h with h | rfl
        · exact old h
        · exact hnew
      | _ => exact old h
  · exact old h

theorem baseDef_defined (hk : Defines k) (hw : w.Rooted) (h : baseDef d k w = .ok base w') : ∀ b ∈ base, w'.Defined b := by
  obtain ⟨_, _, e, h⟩ := of_bind_ok h
  cases e
  cases hbase : (w.classDesc d).base with
  | none =>
    rw [hbase] at h
    cases h
    simp
  | some b =>
    rw [hbase] at h
    obtain ⟨b', _, h, e⟩ := of_bind_ok h
    cases e
    exact fun _ e => Option.some.inj e ▸ hk hw h

theorem newClassDef_spec [KnotAlong Sprouting k] (hk : Defines k) (hw : w.Rooted) :
    w.Sprouts ((newClassDef d key).after k w) ∧ ∀ {c w'}, newClassDef d key k w = .ok c w' → w'.Defined c := by
  have finish (c : ClassDefId) (base : Option ClassDefId) : Along Sprouting k (do
      base.forM seeNewSubclass
      addSources c d
      callFinalizer c d
      pure c) := inferInstance
  constructor
  · refine after_bind (fun base w₁ h₁ => ?_) fun e w₁ h₁ => Along.of_error (R := Sprouting) _ h₁ hw
    have s₁ : w.Sprouts w₁ := Along.of_ok (R := Sprouting) _ h₁ hw
    obtain ⟨w₂, h₂, s₂, -⟩ := enterClass_spec d key k s₁.rooted (baseDef_defined hk hw h₁)
    rw [after_bind_of_ok h₂]
    exact (s₁.trans s₂).trans ((finish _ base).to_after w₂ s₂.rooted)
  · intro c w' h
    obtain ⟨base, w₁, h₁, h⟩ := of_bind_ok h
    have s₁ : w.Sprouts w₁ := Along.of_ok (R := Sprouting) _ h₁ hw
    obtain ⟨w₂, h₂, s₂, hc⟩ := enterClass_spec d key k s₁.rooted (baseDef_defined hk hw h₁)
    rw [bind_of_ok h₂] at h
    have s : w₂.Sprouts w' := (finish _ base).of_ok (R := Sprouting) _ h s₂.rooted
    obtain ⟨_, _, -, h⟩ := of_bind_ok h
    obtain ⟨_, _, -, h⟩ := of_bind_ok h
    obtain ⟨_, _, -, h⟩ := of_bind_ok h
    cases h
    exact hc.mono s.size

theorem defineClass_spec [KnotAlong Sprouting k] (hk : Defines k) (hw : w.Rooted) :
    w.Sprouts ((defineClass d key).after k w) ∧ ∀ {c w'}, defineClass d key k w = .ok c w' → w'.Defined c := by
  have run : defineClass d key k w = (match (w.classDesc d).classDefs.lookup key with
    | some c => pure c
    | none => newClassDef d key : Ana ClassDefId) k w := rfl
  unfold after
  rw [run]
  cases hknown : (w.classDesc d).classDefs.lookup key with
  | some c' =>
    refine ⟨.refl hw, fun h => ?_⟩
    cases h
    exact hw.known (w.known_eq d ▸ hknown)
  | none => exact newClassDef_spec hk hw

/-- **Classes only come**, and those that are asked for are there, however deep the steps come back to each other. -/
theorem sprouting_knotAux (n : Nat) : KnotAlong Sprouting (knotAux n) ∧ Defines (knotAux n) := by
  have refl (w : World) : Sprouting w w := .refl
  induction n with
  | zero => exact ⟨⟨fun _ => ⟨refl⟩, fun _ => ⟨refl⟩, fun _ _ => ⟨refl⟩, fun _ _ _ => ⟨refl⟩⟩, fun _ h => by cases h⟩
  | succ n ih =>
    obtain ⟨along, defines⟩ := ih
    refine ⟨⟨fun v => ⟨(Along.annotateConstant v).to_after⟩, fun v => ⟨(Along.describe v).to_after⟩, fun d key => ⟨fun w hw => ?_⟩,
      fun ds args whence => ⟨(Along.callPbc ds args whence).to_after⟩⟩, fun hw h => (defineClass_spec defines hw).2 h⟩
    exact (defineClass_spec defines hw).1

instance (n : Nat) : KnotAlong Sprouting (knotAux n) := (sprouting_knotAux n).1

/-- **A class that is asked for is there afterwards.** -/
theorem uniqueClassDef_defined [KnotAlong Sprouting k] (hk : Defines k) {c : ClassId} {d : Nat} (hw : w.Rooted)
    (h : uniqueClassDef c k w = .ok d w') : w'.Defined d := by
  obtain ⟨e, w₁, h₁, h⟩ := of_bind_ok h
  exact hk (Along.of_ok (R := Sprouting) (descOf (.cls c)) h₁ hw).rooted h

end Ana
end FlowCompiler
