/-!
# Lists of entries

What is found in a list of keys and values when an entry is added or replaced, or goes.
-/

namespace FlowCompiler.Entries

open List

variable {κ α : Type} [BEq κ] {xs : List (κ × α)} {k l : κ} {v : α}

theorem lookup_cons (m : κ) (u : α) : ((m, u) :: xs).lookup l = if l == m then some u else xs.lookup l := by
  rw [List.lookup_cons]
  cases l == m <;> rfl

variable [LawfulBEq κ]

theorem lookup_replace : (xs.map fun e => if e.1 == k then (k, v) else e).lookup l =
    if l == k then (xs.lookup k).map fun _ => v else xs.lookup l := by
  induction xs with
  | nil => simp
  | cons e xs ih =>
    obtain ⟨m, u⟩ := e
    rw [map_cons]
    by_cases hm : m = k
    · subst hm
      rw [if_pos (beq_self_eq_true m), lookup_cons, lookup_cons, lookup_cons, ih]
      by_cases hl : l = m <;> simp [hl]
    · rw [if_neg (by simpa using hm), lookup_cons, lookup_cons, lookup_cons, ih]
      by_cases hl : l = k
      · simp [hl, Ne.symm hm]
      · simp [hl]

omit [LawfulBEq κ] in
theorem lookup_map_snd {β : Type} (g : α → β) (xs : List (κ × α)) (k : κ) : (xs.map fun p => (p.1, g p.2)).lookup k = (xs.lookup k).map g := by
  induction xs with
  | nil => rfl
  | cons p xs ih =>
    rw [map_cons, lookup_cons, ih, show p = (p.1, p.2) from rfl, lookup_cons]
    split <;> rfl

theorem map_fst_replace : (xs.map fun e => if e.1 == k then (k, v) else e).map Prod.fst = xs.map Prod.fst := by
  rw [map_map]
  refine map_congr_left fun e _ => ?_
  dsimp only [Function.comp_apply]
  split
  · rename_i e
    exact (eq_of_beq e).symm
  · rfl

theorem lookup_remove : (xs.filter fun e => !(e.1 == k)).lookup l = if l == k then none else xs.lookup l := by
  induction xs with
  | nil => simp
  | cons e xs ih =>
    obtain ⟨m, u⟩ := e
    rw [filter_cons, lookup_cons]
    by_cases hm : m = k
    · subst hm
      rw [if_neg (by simp), ih]
      by_cases hl : l = m <;> simp [hl]
    · rw [if_pos (by simpa using hm), lookup_cons, ih]
      by_cases hl : l = k
      · simp [hl, Ne.symm hm]
      · simp [hl]

theorem lookup_filter_ne {κ : Type} [DecidableEq κ] {xs : List (κ × α)} {k l : κ} :
    (xs.filter (·.1 ≠ k)).lookup l = if l = k then none else xs.lookup l := by
  have e : (xs.filter fun e => decide (e.1 ≠ k)) = xs.filter fun e => !(e.1 == k) := filter_congr fun e _ => by rw [decide_not]; rfl
  rw [e, lookup_remove]
  simp only [beq_iff_eq]

theorem lookup_concat (h : xs.lookup k = none) : (xs ++ [(k, v)]).lookup l = if l == k then some v else xs.lookup l := by
  rw [lookup_append, lookup_cons]
  by_cases hl : l = k
  · subst hl
    simp [h]
  · simp [hl]

theorem isSome_lookup : (xs.lookup k).isSome ↔ k ∈ xs.map Prod.fst := by
  induction xs with
  | nil => simp
  | cons e xs ih =>
    rw [show e = (e.1, e.2) from rfl, lookup_cons, map_cons, mem_cons, ← ih]
    by_cases hk : k = e.1 <;> simp [hk]

theorem mem_of_lookup (h : xs.lookup k = some v) : (k, v) ∈ xs := by
  obtain ⟨l, r, rfl, -⟩ := lookup_eq_some_iff.1 h
  simp

theorem not_mem_of_lookup (h : xs.lookup k = none) : k ∉ xs.map Prod.fst := by
  rw [← isSome_lookup, h]
  exact Bool.false_ne_true

theorem lookup_eq_some_iff (h : (xs.map Prod.fst).Nodup) : xs.lookup k = some v ↔ (k, v) ∈ xs := by
  induction xs with
  | nil => simp
  | cons e xs ih =>
    obtain ⟨m, u⟩ := e
    obtain ⟨hm, hxs⟩ := nodup_cons.1 h
    rw [lookup_cons, mem_cons, Prod.mk.injEq]
    by_cases hk : k = m
    · subst hk
      have hno : (k, v) ∉ xs := fun hv => hm (mem_map.2 ⟨_, hv, rfl⟩)
      simp [hno, eq_comm]
    · simp [hk, ih hxs]

theorem lookup_of_perm {ys : List (κ × α)} (p : xs.Perm ys) (h : (xs.map Prod.fst).Nodup) : xs.lookup k = ys.lookup k := by
  ext v
  rw [lookup_eq_some_iff h, lookup_eq_some_iff ((p.map _).nodup_iff.1 h), p.mem_iff]

end FlowCompiler.Entries
