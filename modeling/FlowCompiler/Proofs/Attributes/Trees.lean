import FlowCompiler.Analysis.ClassDef
import FlowCompiler.Proofs.Hierarchy
import FlowCompiler.Proofs.Lookup
import FlowCompiler.Proofs.Steps.Unions

/-!
# Trees of classes

Classes form trees, in which a name has at most one attribute on the way from a class to its root.  A change that does not
touch the tree leaves every class below the same base.
-/

namespace FlowCompiler

/-! ## Dictionaries -/

namespace Ana

variable {α : Type} {xs : List (String × α)} {name n : String} {v : α}

theorem lookup_cons (m : String) (u : α) : ((m, u) :: xs).lookup n = if n = m then some u else xs.lookup n := by
  rw [Entries.lookup_cons]
  simp only [beq_iff_eq]

end Ana

variable {f : ClassDef → ClassDef}

namespace World

variable {w w' w'' : World}

/-- The sources of constants that wait on a class for an attribute. -/
def sourcesOf (w : World) (c : ClassDefId) (name : String) : List AttrSource := ((w.classDef c).sources.lookup name).getD []

/-- A description that has been made. -/
def Described (w : World) (d : Nat) : Prop := d - 1 < w.descs.size

/-- What descriptions and the index refer to is there. -/
structure Indexed (w : World) : Prop where
  known : ∀ {d c : Nat} {key : String}, (w.classDesc d).classDefs.lookup key = some c → w.Defined c
  base : ∀ {d b : Nat}, (w.classDesc d).base = some b → w.Described b
  index : ∀ {v : Datum} {d : Nat}, w.descIndex[v]? = some d → w.Described d

/-- Classes form trees; a name has at most one attribute on the way from a class to its root, and no sources
wait where there is one. -/
structure Formed (w : World) : Prop where
  tree : w.Tree
  indexed : w.Indexed
  desc : ∀ {c : Nat}, w.Defined c → w.Described (w.classDef c).desc
  attr : ∀ {c : Nat} {name : String} {a : AttrId}, w.Defined c → w.attrOf? c name = some a → a < w.attributes.size ∧ (w.attr a).name = name
  single : ∀ {c i j : Nat} {name : String}, w.Defined c → i ∈ w.mro c → j ∈ w.mro c → (w.attrOf? i name).isSome → (w.attrOf? j name).isSome → i = j
  bare : ∀ {c i : Nat} {name : String}, w.Defined c → i ∈ w.mro c → (w.attrOf? i name).isSome → w.sourcesOf c name = []

theorem Defined.mono {c : Nat} (h : w.Defined c) (hw : w.classDefs.size ≤ w'.classDefs.size) : w'.Defined c := ⟨h.1, Nat.le_trans h.2 hw⟩

theorem Described.mono {d : Nat} (h : w.Described d) (hw : w.descs.size ≤ w'.descs.size) : w'.Described d := Nat.lt_of_lt_of_le h hw

/-! ## Changes that do not touch the tree -/

/-- The same classes below the same bases. -/
structure SameTree (w w' : World) : Prop where
  size : w'.classDefs.size = w.classDefs.size
  base : ∀ c, (w'.classDef c).base = (w.classDef c).base
  subs : ∀ c, (w'.classDef c).subs = (w.classDef c).subs
  desc : ∀ c, (w'.classDef c).desc = (w.classDef c).desc

namespace SameTree

theorem defined (h : w.SameTree w') {c : Nat} : w'.Defined c ↔ w.Defined c := by rw [Defined, Defined, h.size]

theorem tree (h : w.SameTree w') (hw : w.Tree) : w'.Tree := by
  constructor
  · intro c b hc hb
    rw [h.base] at hb
    exact hw.base (h.defined.1 hc) hb
  · intro c c' hc
    rw [h.subs, h.base, h.defined]
    exact hw.subs (h.defined.1 hc)
  · intro c hc
    rw [h.subs]
    exact hw.nodup (h.defined.1 hc)

theorem updateClassDef (w : World) (c : ClassDefId) (hb : ∀ t, (f t).base = t.base)
    (hs : ∀ t, (f t).subs = t.subs) (hd : ∀ t, (f t).desc = t.desc) : w.SameTree (w.updateClassDef c f) := by
  refine ⟨by simp [World.updateClassDef], fun c' => ?_, fun c' => ?_, fun c' => ?_⟩
  all_goals
    simp only [classDef, World.updateClassDef, Array.getElem?_modify]
    split
    · cases w.classDefs[c' - 1]? with
      | none => rfl
      | some t => simp [hb, hs, hd]
    · rfl

end SameTree

theorem classDef_congr (h : w'.classDefs = w.classDefs) (c : ClassDefId) : w'.classDef c = w.classDef c := by rw [classDef, classDef, h]

theorem SameTree.of_eq (h : w'.classDefs = w.classDefs) : w.SameTree w' :=
  ⟨congrArg Array.size h, fun c => by rw [classDef_congr h], fun c => by rw [classDef_congr h], fun c => by rw [classDef_congr h]⟩

theorem classDef_updateClassDef {c c' : Nat} (hc : w.Defined c) (hc' : w.Defined c') :
    (w.updateClassDef c f).classDef c' = if c = c' then f (w.classDef c') else w.classDef c' := by
  have hlt : c' - 1 < w.classDefs.size := Nat.lt_of_lt_of_le (Nat.sub_lt hc'.1 Nat.one_pos) hc'.2
  have hiff : c - 1 = c' - 1 ↔ c = c' := by
    obtain ⟨h₁, -⟩ := hc
    obtain ⟨h₂, -⟩ := hc'
    omega
  simp only [classDef, updateClassDef, Array.getElem?_modify, Array.getElem?_eq_getElem hlt, hiff]
  split <;> rfl

end World
end FlowCompiler
