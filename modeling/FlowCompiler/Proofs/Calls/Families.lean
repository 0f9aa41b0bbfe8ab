import Mathlib.Data.Set.Insert
import FlowCompiler.Proofs.Calls.Tables
import FlowCompiler.Proofs.Union.Join

/-!
# What call tables hold

A family of calls is made of descriptions, of rows that are added to it and of other families that it takes in (`Gathered`).  Its
tables hold the rows that went into any of these and no others, each of them once, in whatever order that was done.
-/

namespace FlowCompiler.Ana

open List

variable {f g : CallFamily} {shape s : CallShape} {row r : Row}

/-! ## Rows as maps -/

/-- The keys of a row are in order, so that each of them has one graph. -/
def Canonical (r : Row) : Prop := r.Pairwise fun x y => x.1 < y.1

theorem Canonical.mem_iff (h : Canonical r) (x : DescId × GraphId) : x ∈ r ↔ r.lookup x.1 = some x.2 :=
  (Entries.lookup_eq_some_iff (pairwise_map.2 (h.imp Nat.ne_of_lt))).symm

theorem Canonical.eq_of_lookup (h : Canonical r) (h' : Canonical row) (same : ∀ d, r.lookup d = row.lookup d) : r = row := by
  exact h.eq_of_mem_iff h' fun x => by rw [h.mem_iff, h'.mem_iff, same]

/-! ## Tables without repetition -/

/-- Every shape has one table, and no table has a row twice. -/
structure Distinct (f : CallFamily) : Prop where
  shapes : (f.tables.map Prod.fst).Nodup
  rows : ∀ s, (f.rows s).Nodup

theorem descs_addRow (f : CallFamily) (shape : CallShape) (row : Row) : (addRow f shape row).descs = f.descs := by
  unfold addRow
  dsimp only
  split <;> rfl

theorem Distinct.addRow (h : Distinct f) (shape : CallShape) (row : Row) : Distinct (addRow f shape row) where
  shapes := by
    have same (rows : List Row) : (f.tables.map fun t => if t.1 = shape then (shape, rows) else t).map Prod.fst = f.tables.map Prod.fst := by
      have replaced : (f.tables.map fun t => if t.1 == shape then (shape, rows) else t).map Prod.fst = _ := Entries.map_fst_replace
      simpa only [beq_iff_eq] using replaced
    unfold Ana.addRow
    dsimp only
    split
    · exact h.shapes
    · dsimp only
      split
      · exact (same _).symm ▸ h.shapes
      · rename_i new
        rw [map_append]
        exact h.shapes.append (nodup_singleton _) (disjoint_singleton.2 fun hm => new (Entries.isSome_lookup.2 hm))
  rows s := by
    rw [rows_addRow]
    split
    · rename_i new
      exact (h.rows s).append (nodup_singleton _) (disjoint_singleton.2 (new.1 ▸ new.2))
    · exact h.rows s

/-- What rows leave as it is, taking in a family does. -/
theorem absorbCalls_induct {P : CallFamily → Prop}
    (start : ∀ modified normalized sites, P { f with descs := sortDescs (f.descs ++ g.descs), modified, normalized, sites })
    (step : ∀ f shape row, P f → P (addRow f shape row)) : P (absorbCalls f g) :=
  List.foldlRecOn _ _ (start _ _ _) fun _ hf t _ => List.foldlRecOn _ _ hf fun _ hf row _ => step _ t.1 row hf

theorem descs_absorbCalls : (absorbCalls f g).descs = sortDescs (f.descs ++ g.descs) :=
  absorbCalls_induct (P := fun x => x.descs = sortDescs (f.descs ++ g.descs)) (fun _ _ _ => rfl) fun f shape row h =>
    (descs_addRow f shape row).trans h

theorem Distinct.absorb (h : Distinct f) (g : CallFamily) : Distinct (absorbCalls f g) :=
  absorbCalls_induct (fun _ _ _ => ⟨h.shapes, h.rows⟩) fun _ shape row h => h.addRow shape row

theorem Distinct.mem_rows_absorb (h : Distinct g) : r ∈ (absorbCalls f g).rows s ↔ r ∈ f.rows s ∨ r ∈ g.rows s := by
  refine mem_rows_absorbCalls.trans (or_congr_right ⟨?_, mem_tables_of_rows⟩)
  rintro ⟨rows, ht, hr⟩
  rwa [CallFamily.rows, (Entries.lookup_eq_some_iff h.shapes).2 ht]

/-! ## Families -/

/-- A family that has been put together from descriptions and rows. -/
inductive Gathered : Set DescId → Set (CallShape × Row) → CallFamily → Prop
  | new (d : DescId) : Gathered {d} ∅ { descs := [d] }
  | row {D : Set DescId} {R : Set (CallShape × Row)} {f : CallFamily} (h : Gathered D R f) (shape : CallShape) {row : Row} (hr : Canonical row) :
      Gathered D (insert (shape, row) R) (addRow f shape row)
  | absorb {D E : Set DescId} {R S : Set (CallShape × Row)} {f g : CallFamily} (h : Gathered D R f) (h' : Gathered E S g) :
      Gathered (D ∪ E) (R ∪ S) (absorbCalls f g)

/-- A family that holds just these descriptions and rows. -/
structure Holds (D : Set DescId) (R : Set (CallShape × Row)) (f : CallFamily) : Prop extends Distinct f where
  descs : ∀ d, d ∈ f.descs ↔ d ∈ D
  mem : ∀ s r, r ∈ f.rows s ↔ (s, r) ∈ R
  canonical : ∀ x ∈ R, Canonical x.2

variable {D E : Set DescId} {R S : Set (CallShape × Row)}

theorem Holds.addRow (h : Holds D R f) (shape : CallShape) (hr : Canonical row) : Holds D (insert (shape, row) R) (Ana.addRow f shape row) where
  toDistinct := h.toDistinct.addRow shape row
  descs d := by rw [descs_addRow, h.descs]
  mem s r := by rw [mem_rows_addRow, h.mem, Set.mem_insert_iff, Prod.mk.injEq, or_comm]
  canonical := Set.forall_mem_insert.2 ⟨hr, h.canonical⟩

theorem Holds.absorb (h : Holds D R f) (h' : Holds E S g) : Holds (D ∪ E) (R ∪ S) (absorbCalls f g) where
  toDistinct := h.toDistinct.absorb g
  descs d := by rw [descs_absorbCalls, Annot.mem_sortDescs, mem_append, h.descs, h'.descs, Set.mem_union]
  mem s r := by rw [h'.mem_rows_absorb, h.mem, h'.mem, Set.mem_union]
  canonical x hx := hx.elim (h.canonical x) (h'.canonical x)

theorem Gathered.holds (h : Gathered D R f) : Holds D R f := by
  induction h with
  | new d => exact ⟨⟨nodup_nil, fun _ => nodup_nil⟩, fun _ => mem_singleton, fun _ _ => iff_of_false not_mem_nil id, nofun⟩
  | row _ shape hr ih => exact ih.addRow shape hr
  | absorb _ _ ih ih' => exact ih.absorb ih'

/-- **Call tables keep exactly the rows added**, and no row twice, whatever the order in which families are put together. -/
theorem tables_exact (h : Gathered D R f) : (∀ d, d ∈ f.descs ↔ d ∈ D) ∧ (∀ s, (∀ r, r ∈ f.rows s ↔ (s, r) ∈ R) ∧ (f.rows s).Pairwise fun r r' => ∃ d,
    r.lookup d ≠ r'.lookup d) ∧ ∀ f', Gathered D R f' → sortDescs f'.descs = sortDescs f.descs ∧ ∀ s, (f'.rows s).Perm (f.rows s) := by
  have held := h.holds
  refine ⟨held.descs, fun s => ⟨held.mem s, (held.rows s).pairwise_of_forall_ne fun r hr r' hr' ne => ?_⟩, fun f' h' => ⟨?_, fun s => ?_⟩⟩
  · by_contra same
    push Not at same
    exact ne ((held.canonical _ ((held.mem s r).1 hr)).eq_of_lookup (held.canonical _ ((held.mem s r').1 hr')) same)
  · exact Annot.sortDescs_congr fun d => by rw [held.descs, h'.holds.descs]
  · exact (perm_ext_iff_of_nodup (h'.holds.rows s) (held.rows s)).2 fun r => by rw [held.mem, h'.holds.mem]

/-- The row of a function is found in the family that takes in its own. -/
theorem tables_exact_taken : [(1, 3)] ∈ (absorbCalls { descs := [2] } (addRow { descs := [1] } default [(1, 3)])).rows default :=
  (((tables_exact ((Gathered.new 2).absorb ((Gathered.new 1).row default (pairwise_singleton _ _)))).2.1 default).1 _).2 (.inr (Set.mem_insert _ _))

end FlowCompiler.Ana
