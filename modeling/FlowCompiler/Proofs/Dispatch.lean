import Mathlib.Data.List.Nodup
import Mathlib.Data.List.ProdSigma
import Mathlib.Logic.Relation
import FlowCompiler.Annot.Basic

/-!
# The order of pairs of kinds

Where each kind has at most one parent, the kinds above a kind form a chain, and the pairs above a pair form a grid.  Merging the orders
of the two neighbours of a pair goes through the grid line by line: first the pairs with the right kind unchanged, then those with its
parent, and so on.  This order is never stuck, has every pair of the grid once, and no pair before one that it is wider than.  So the
first handler that is found along it is one of the most specific ones.
-/

namespace FlowCompiler

open List
namespace Linearization

variable {α : Type} {n : Nat} {a b c : α} {as bs s R : List α} {seqs rest : List (List α)}

/-! ## Merging -/

theorem find?_eq_of_unique {p : α → Bool} {l : List α} (hc : c ∈ l) (hp : p c = true) (hu : ∀ x ∈ l, p x = true → x = c) : l.find? p = some c := by
  obtain ⟨x, hx⟩ := Option.isSome_iff_exists.1 (find?_isSome.2 ⟨c, hc, hp⟩)
  rw [hx, hu x (mem_of_find?_eq_some hx) (find?_some hx)]

theorem tail_sublist {r : α} {t : List α} (h : t.Sublist (r :: R)) : t.tail.Sublist R := by
  cases h with
  | cons _ h => exact (List.tail_sublist t).trans h
  | cons_cons _ h => exact h

section

variable [DecidableEq α]

/-- A sequence without its head, if that is the one written out. -/
def advance (c : α) (s : List α) : List α := if s.head? = some c then s.tail else s

@[simp] theorem advance_nil (c : α) : advance c [] = [] := rfl

@[simp] theorem advance_cons_self (c : α) (s : List α) : advance c (c :: s) = s := if_pos rfl

theorem merge_filter (n : Nat) (seqs : List (List α)) : merge n (seqs.filter fun s => !s.isEmpty) = merge n seqs := by
  cases n with
  | zero => rfl
  | succ n =>
    rw [merge, merge]
    simp only [filter_filter, Bool.and_self]

theorem filter_advance (c : α) (seqs : List (List α)) :
      (((seqs.filter fun s => !s.isEmpty).map (advance c)).filter fun s => !s.isEmpty) = (seqs.map (advance c)).filter fun s => !s.isEmpty := by
  induction seqs with
  | nil => rfl
  | cons s seqs ih => cases s <;> simp_all [filter_cons]

theorem merge_succ (h : nextHead? (seqs.filter fun s => !s.isEmpty) = some c) :
    merge (n + 1) seqs = (merge n (seqs.map (advance c))).map (c :: ·) := by
  have hne : (seqs.filter fun s => !s.isEmpty).isEmpty = false := by
    cases hf : seqs.filter fun s => !s.isEmpty with
    | nil =>
      rw [hf] at h
      cases h
    | cons s rest => rfl
  rw [merge]
  simp only [hne, h, Bool.false_eq_true, if_false]
  change (merge n ((seqs.filter fun s => !s.isEmpty).map (advance c))).map (c :: ·) = _
  rw [← merge_filter, filter_advance, merge_filter]

/-- The first head is written out unless it waits in a tail. -/
theorem merge_first (hs : c ∉ s) (hrest : ∀ t ∈ rest, c ∉ t.tail) :
    merge (n + 1) ((c :: s) :: rest) = (merge n (s :: rest.map (advance c))).map (c :: ·) := by
  have hnext : nextHead? (((c :: s) :: rest).filter fun s => !s.isEmpty) = some c := by
    refine find?_cons_of_pos ?_
    change (((c :: s) :: rest.filter fun s => !s.isEmpty).all fun s => !s.tail.contains c) = true
    simp only [all_cons, tail_cons, contains_eq_mem, Bool.and_eq_true, all_eq_true, mem_filter]
    exact ⟨by simp [hs], fun t ht => by simpa using hrest t ht.1⟩
  rw [merge_succ hnext, map_cons, advance_cons_self]

theorem advance_sublist {r : α} {t : List α} (h : t.Sublist (r :: R)) : (advance r t).Sublist R := by
  cases h with
  | cons _ h =>
    rw [advance]
    split
    · exact (List.tail_sublist t).trans h
    · exact h
  | cons_cons _ h => rwa [advance_cons_self]

/-- Sequences that all lie in one of them merge to that one: any head but its own waits in its tail. -/
theorem merge_of_sublists (hR : R ∈ seqs) (hs : ∀ s ∈ seqs, s.Sublist R) (hn : R.Nodup) (hlen : R.length < n) : merge n seqs = some R := by
  induction R generalizing n seqs with
  | nil =>
    obtain ⟨n, rfl⟩ := Nat.exists_eq_succ_of_ne_zero (Nat.ne_zero_of_lt hlen)
    have hempty : (seqs.filter fun s => !s.isEmpty) = [] := filter_eq_nil_iff.2 fun s h => by simp [sublist_nil.1 (hs s h)]
    rw [merge, hempty]
    rfl
  | cons r R ih =>
    obtain ⟨n, rfl⟩ := Nat.exists_eq_succ_of_ne_zero (Nat.ne_zero_of_lt hlen)
    obtain ⟨hr, hnR⟩ := nodup_cons.1 hn
    have hfilter {s : List α} (h : s ∈ seqs.filter fun s => !s.isEmpty) : s ∈ seqs := (mem_filter.1 h).1
    have hnext : nextHead? (seqs.filter fun s => !s.isEmpty) = some r := by
      refine find?_eq_of_unique (mem_filterMap.2 ⟨r :: R, mem_filter.2 ⟨hR, rfl⟩, rfl⟩) ?_ fun x hx hfree => ?_
      · -- the head of the longest sequence is in no tail
        refine all_eq_true.2 fun s h => ?_
        simpa using fun hmem => hr ((tail_sublist (hs s (hfilter h))).subset hmem)
      · -- any other head is in its tail
        obtain ⟨s, h, hhead⟩ := mem_filterMap.1 hx
        have hmem := (hs s (hfilter h)).subset (mem_of_mem_head? hhead)
        refine (mem_cons.1 hmem).resolve_right fun hxR => ?_
        have := all_eq_true.1 hfree (r :: R) (mem_filter.2 ⟨hR, rfl⟩)
        simp [hxR] at this
    have hrest : merge n (seqs.map (advance r)) = some R := ih ?_ ?_ hnR (Nat.lt_of_succ_lt_succ hlen)
    · rw [merge_succ hnext, hrest]
      rfl
    · exact mem_map.2 ⟨_, hR, advance_cons_self r R⟩
    · intro s h
      obtain ⟨t, ht, rfl⟩ := mem_map.1 h
      exact advance_sublist (hs t ht)

/-- Heads that only the first sequence has are written out one after the other. -/
theorem merge_front {xs : List α} (hn : (xs ++ s).Nodup) (hrest : ∀ t ∈ rest, ∀ x ∈ xs, x ∉ t) (n : Nat) :
    merge (xs.length + n) ((xs ++ s) :: rest) = (merge n (s :: rest)).map (xs ++ ·) := by
  induction xs with
  | nil => simp
  | cons x xs ih =>
    obtain ⟨hx, hn⟩ := nodup_cons.1 (show (x :: (xs ++ s)).Nodup from hn)
    have hadv : rest.map (advance x) = rest := by
      refine (map_congr_left fun t ht => ?_).trans (map_id rest)
      exact if_neg fun e => hrest t ht x mem_cons_self (mem_of_mem_head? e)
    change merge (xs.length + 1 + n) ((x :: (xs ++ s)) :: rest) = _
    rw [Nat.add_right_comm, merge_first hx fun t ht h => hrest t ht x mem_cons_self (mem_of_mem_tail h), hadv,
      ih hn fun t ht y hy => hrest t ht y (mem_cons_of_mem _ hy), Option.map_map]
    rfl

end

/-! ## Pairs -/

/-- All pairs of two chains, line by line. -/
def grid (as bs : List α) : List (α × α) := bs.flatMap fun b => as.map (·, b)

@[simp] theorem grid_nil_right (as : List α) : grid as [] = [] := rfl

@[simp] theorem grid_nil_left (bs : List α) : grid [] bs = [] := by simp [grid]

theorem grid_cons (as : List α) (b : α) (bs : List α) : grid as (b :: bs) = as.map (·, b) ++ grid as bs := rfl

theorem mem_grid {p : α × α} : p ∈ grid as bs ↔ p.1 ∈ as ∧ p.2 ∈ bs := by
  obtain ⟨x, y⟩ := p
  simp [grid, and_comm]

theorem length_grid (as bs : List α) : (grid as bs).length = as.length * bs.length := by
  simp [grid, Nat.mul_comm]

theorem nodup_grid (ha : as.Nodup) (hb : bs.Nodup) : (grid as bs).Nodup := by
  induction hb with
  | nil => exact .nil
  | cons hbbs _ ih =>
    refine (ha.map fun x y e => congrArg Prod.fst e).append ih fun p hp hp' => ?_
    obtain ⟨x, -, rfl⟩ := mem_map.1 hp
    exact hbbs _ (mem_grid.1 hp').2 rfl

theorem grid_sublist (a : α) (as bs : List α) : (grid as bs).Sublist (grid (a :: as) bs) := by
  induction bs with
  | nil => exact .refl _
  | cons b bs ih =>
    rw [grid_cons, grid_cons]
    exact ((sublist_cons_self _ _).map _).append ih

theorem next_line_sublist (a : α) (as bs : List α) : (bs.head?.map (a, ·)).toList.Sublist (grid (a :: as) bs) := by
  cases bs with
  | nil => exact .refl _
  | cons b bs =>
    rw [grid_cons]
    exact (nil_sublist _).cons_cons _

/-- The order of a pair begins with its line; behind the line the order of the wider right side takes over. -/
theorem merge_lines [DecidableEq α] (ha : (a :: as).Nodup) (hb : (b :: bs).Nodup) : merge ((as.length + 1) * (bs.length + 1) + 1)
        [grid as (b :: bs), grid (a :: as) bs, (as.head?.map (·, b)).toList ++ (bs.head?.map (a, ·)).toList] =
      some (as.map (·, b) ++ grid (a :: as) bs) := by
  obtain ⟨-, has⟩ := nodup_cons.1 ha
  obtain ⟨hbbs, hbs⟩ := nodup_cons.1 hb
  have lines {n : Nat} (hlen : (grid (a :: as) bs).length < n) :
      merge n [grid as bs, grid (a :: as) bs, (bs.head?.map (a, ·)).toList] = some (grid (a :: as) bs) := by
    refine merge_of_sublists (by simp) ?_ (nodup_grid ha hbs) hlen
    simpa using ⟨grid_sublist a as bs, next_line_sublist a as bs⟩
  have hlength := length_grid (a :: as) bs
  cases as with
  | nil =>
    refine lines ?_
    simp only [hlength, length_nil, length_cons, Nat.zero_add, Nat.one_mul]
    omega
  | cons x as =>
    have hfuel : ((x :: as).length + 1) * (bs.length + 1) + 1 = as.length + ((grid (a :: x :: as) bs).length + 2) + 1 := by
      rw [hlength]
      simp only [length_cons, Nat.add_mul, Nat.mul_add]
      omega
    -- the line is in the first sequence only, apart from the next pair, which the last one begins with
    have below {y : α} (h : (y, b) ∈ grid (a :: x :: as) bs) : False := hbbs (mem_grid.1 h).2
    have hnot : ∀ t ∈ [grid (a :: x :: as) bs, (bs.head?.map (a, ·)).toList], ∀ y, (y, b) ∉ t := by
      intro t ht y hy
      rcases mem_pair.1 ht with rfl | rfl
      · exact below hy
      · exact below ((next_line_sublist a (x :: as) bs).subset hy)
    have hline : ((x :: as).map (·, b) ++ grid (x :: as) bs).Nodup := nodup_grid has hb
    obtain ⟨hfirst, hrest⟩ := nodup_cons.1 (show ((x, b) :: (as.map (·, b) ++ grid (x :: as) bs)).Nodup from hline)
    have hright : advance (x, b) (grid (a :: x :: as) bs) = grid (a :: x :: as) bs := if_neg fun e => below (mem_of_mem_head? e)
    rw [hfuel, grid_cons]
    change merge _ [(x, b) :: (as.map (·, b) ++ grid (x :: as) bs), grid (a :: x :: as) bs, (x, b) :: (bs.head?.map (a, ·)).toList] = _
    rw [merge_first hfirst ?_, map_cons, map_cons, map_nil, hright, advance_cons_self]
    · have hcount : as.length = (as.map (·, b)).length := (length_map _).symm
      rw [hcount, merge_front hrest, lines (by omega)]
      · rfl
      · intro t ht y hy
        obtain ⟨z, -, rfl⟩ := mem_map.1 hy
        exact hnot t ht z
    · intro t ht
      rcases mem_pair.1 ht with rfl | rfl
      · exact fun h => below (mem_of_mem_tail h)
      · exact hnot _ (by simp) x

/-- **Pairs are listed line by line**, without ever being stuck. -/
theorem pairs_eq [DecidableEq α] (ha : as.Nodup) (hb : bs.Nodup) : pairs as bs = some (grid as bs) := by
  induction as, bs using pairs.induct with
  | case1 a as b bs ihLeft ihRight =>
    have hmerge := merge_lines ha hb
    rw [pairs, ihLeft (nodup_cons.1 ha).2 hb, ihRight ha (nodup_cons.1 hb).2]
    simp only [Option.bind_eq_bind, Option.bind_some, hmerge]
    rfl
  | case2 as bs h =>
    have : grid as bs = [] := by
      rcases as with - | ⟨a, as⟩
      · simp
      · rcases bs with - | ⟨b, bs⟩
        · rfl
        · exact (h a as b bs rfl rfl).elim
    rw [this, pairs]
    exact h

end Linearization

/-! ## Hierarchies -/

/-- Kinds with one parent at most, which come to an end. -/
structure Hierarchy (κ : Type) where
  parent? : κ → Option κ
  height : κ → Nat
  height_lt : ∀ {k p : κ}, parent? k = some p → height p < height k

namespace Hierarchy

variable {κ : Type} (H : Hierarchy κ) {a b k p : κ}

def ancestorsAux : (fuel : Nat) → κ → List κ
  | 0, _ => []
  | n + 1, k => k :: ((H.parent? k).map (ancestorsAux n)).getD []

/-- A kind and all wider ones, from narrow to wide. -/
def ancestors (k : κ) : List κ := H.ancestorsAux (H.height k + 1) k

/-- The second kind is the first one or wider. -/
def Wider (k : κ) : κ → Prop := Relation.ReflTransGen (fun k p => H.parent? k = some p) k

/-- A pair is at least as general as another one. -/
def Covers (p q : κ × κ) : Prop := H.Wider q.1 p.1 ∧ H.Wider q.2 p.2

/-- The pairs above a pair, in the order in which a handler is looked for. -/
def order [DecidableEq κ] (a b : κ) : Option (List (κ × κ)) := Linearization.pairs (H.ancestors a) (H.ancestors b)

/-- The first handler of a pair above a pair; a later registration of a pair replaces an earlier one. -/
def lookup [DecidableEq κ] {β : Type} (handlers : List ((κ × κ) × β)) (a b : κ) : Option ((κ × κ) × β) :=
  ((H.order a b).getD []).findSome? fun p => handlers.reverse.find? fun h => h.1 = p

variable {H}

theorem ancestorsAux_eq {m n : Nat} (hm : H.height k < m) (hn : H.height k < n) : H.ancestorsAux m k = H.ancestorsAux n k := by
  induction m generalizing k n with
  | zero => exact absurd hm (Nat.not_lt_zero _)
  | succ m ih =>
    obtain ⟨n, rfl⟩ := Nat.exists_eq_succ_of_ne_zero (Nat.ne_zero_of_lt hn)
    rw [ancestorsAux, ancestorsAux]
    cases hp : H.parent? k with
    | none => rfl
    | some p =>
      have hlt := H.height_lt hp
      exact congrArg (k :: ·) (ih (by omega) (by omega))

theorem ancestors_eq (k : κ) : H.ancestors k = k :: ((H.parent? k).map H.ancestors).getD [] := by
  rw [ancestors, ancestorsAux]
  cases hp : H.parent? k with
  | none => rfl
  | some p => exact congrArg (k :: ·) (ancestorsAux_eq (H.height_lt hp) (Nat.lt_succ_self _))

theorem Wider.height_le (h : H.Wider k p) : H.height p ≤ H.height k := by
  induction h with
  | refl => exact Nat.le_refl _
  | tail _ h ih => exact Nat.le_trans (Nat.le_of_lt (H.height_lt h)) ih

theorem mem_ancestors : p ∈ H.ancestors k ↔ H.Wider k p := by
  induction hk : H.height k using Nat.strongRecOn generalizing k with
  | _ n ih =>
    rw [ancestors_eq, mem_cons, Wider, Relation.ReflTransGen.cases_head_iff, eq_comm]
    refine or_congr_right ?_
    cases hp : H.parent? k with
    | none => simp
    | some q =>
      have := ih _ (hk ▸ H.height_lt hp) (k := q) rfl
      rw [Wider] at this
      simpa using this

theorem pairwise_ancestors (k : κ) : (H.ancestors k).Pairwise fun x y => H.height y < H.height x := by
  induction hk : H.height k using Nat.strongRecOn generalizing k with
  | _ n ih =>
    rw [ancestors_eq]
    cases hp : H.parent? k with
    | none => exact pairwise_singleton _ _
    | some q =>
      refine .cons (fun x hx => ?_) (ih _ (hk ▸ H.height_lt hp) _ rfl)
      exact Nat.lt_of_le_of_lt (mem_ancestors.1 hx).height_le (H.height_lt hp)

theorem nodup_ancestors (k : κ) : (H.ancestors k).Nodup := by
  refine (pairwise_ancestors k).imp ?_
  rintro x _ h rfl
  exact Nat.lt_irrefl _ h

/-! ## Dispatch -/

variable (H)

/-- A list of all pairs above a pair, none before one that it is strictly wider than. -/
structure Linear (a b : κ) (l : List (κ × κ)) : Prop where
  nodup : l.Nodup
  mem : ∀ p, p ∈ l ↔ H.Covers p (a, b)
  order : l.Pairwise fun p q => ¬ (H.Covers p q ∧ p ≠ q)

/-- A handler is found if one applies, and it is the last one of its pair, which no other pair with a handler
that applies is strictly narrower than. -/
structure Dispatches {β : Type} (handlers : List ((κ × κ) × β)) (a b : κ) (found : Option ((κ × κ) × β)) : Prop where
  isSome : found.isSome = true ↔ ∃ h ∈ handlers, H.Covers h.1 (a, b)
  applies : ∀ h ∈ found, H.Covers h.1 (a, b)
  last : ∀ h ∈ found, ∃ before after, handlers = before ++ h :: after ∧ ∀ g ∈ after, g.1 ≠ h.1
  narrowest : ∀ h ∈ found, ∀ g ∈ handlers, H.Covers g.1 (a, b) → ¬ (H.Covers h.1 g.1 ∧ h.1 ≠ g.1)

variable {H}

theorem linear_grid (a b : κ) : H.Linear a b (Linearization.grid (H.ancestors a) (H.ancestors b)) where
  nodup := Linearization.nodup_grid (nodup_ancestors a) (nodup_ancestors b)
  mem p := by rw [Linearization.mem_grid, mem_ancestors, mem_ancestors, Covers]
  order := by
    refine pairwise_flatMap.2 ⟨fun y hy => pairwise_map.2 ?_, ?_⟩
    · -- in a line the left kind gets wider
      refine (pairwise_ancestors a).imp ?_
      rintro x x' h ⟨hc, -⟩
      exact Nat.not_le_of_lt h hc.1.height_le
    · -- from line to line the right kind gets wider
      refine (pairwise_ancestors b).imp fun {y y'} h p hp q hq => ?_
      obtain ⟨x, -, rfl⟩ := mem_map.1 hp
      obtain ⟨x', -, rfl⟩ := mem_map.1 hq
      rintro ⟨hc, -⟩
      exact Nat.not_le_of_lt h hc.2.height_le

theorem dispatches_findSome? [DecidableEq κ] {β : Type} {l : List (κ × κ)} (hl : H.Linear a b l) (handlers : List ((κ × κ) × β)) :
    H.Dispatches handlers a b (l.findSome? fun p => handlers.reverse.find? fun h => h.1 = p) := by
  have registered {p : κ × κ} : (handlers.reverse.find? fun h => h.1 = p).isSome = true ↔ ∃ h ∈ handlers, h.1 = p := by
    simp [find?_isSome]
  -- where a handler was found: its pair in the order, and its place among the registrations
  have found {h : (κ × κ) × β} (hh : (l.findSome? fun p => handlers.reverse.find? fun h => h.1 = p) = some h) :
      ∃ before after, l = before ++ h.1 :: after ∧ (∀ p ∈ before, ¬ ∃ g ∈ handlers, g.1 = p) ∧
        ∃ earlier later, handlers = earlier ++ h :: later ∧ ∀ g ∈ later, g.1 ≠ h.1 := by
    obtain ⟨before, p, after, hsplit, hp, hbefore⟩ := findSome?_eq_some_iff.1 hh
    obtain ⟨he, later, earlier, hreverse, hlater⟩ := find?_eq_some_iff_append.1 hp
    obtain rfl := of_decide_eq_true he
    refine ⟨before, after, hsplit, fun p hpb hreg => ?_, earlier.reverse, later.reverse, ?_, fun g hg => ?_⟩
    · have := registered.2 hreg
      rw [hbefore p hpb] at this
      cases this
    · simpa using congrArg List.reverse hreverse
    · simpa using hlater g (mem_reverse.1 hg)
  refine ⟨?_, fun h hh => ?_, fun h hh => ?_, fun h hh g hg hcov => ?_⟩
  · rw [findSome?_isSome_iff]
    constructor
    · rintro ⟨p, hp, hsome⟩
      obtain ⟨h, hh, rfl⟩ := registered.1 hsome
      exact ⟨h, hh, (hl.mem h.1).1 hp⟩
    · rintro ⟨h, hh, hcov⟩
      exact ⟨h.1, (hl.mem h.1).2 hcov, registered.2 ⟨h, hh, rfl⟩⟩
  · obtain ⟨before, after, hsplit, -, -⟩ := found hh
    exact (hl.mem h.1).1 (by simp [hsplit])
  · obtain ⟨-, -, -, -, earlier, later, h⟩ := found hh
    exact ⟨earlier, later, h⟩
  · obtain ⟨before, after, hsplit, hbefore, -⟩ := found hh
    have hmem := (hl.mem g.1).2 hcov
    have horder := hl.order
    rw [hsplit] at hmem horder
    rcases mem_append.1 hmem with hmem | hmem
    · exact absurd ⟨g, hg, rfl⟩ (hbefore _ hmem)
    · rcases mem_cons.1 hmem with e | hmem
      · exact fun hc => hc.2 e.symm
      · exact (pairwise_cons.1 (pairwise_append.1 horder).2.1).1 _ hmem

theorem order_eq [DecidableEq κ] (a b : κ) : H.order a b = some (Linearization.grid (H.ancestors a) (H.ancestors b)) :=
  Linearization.pairs_eq (nodup_ancestors a) (nodup_ancestors b)

end Hierarchy

namespace Kind

/-- The kinds of annotations. -/
def hierarchy : Hierarchy Kind where
  parent? := parent?
  height k := k.ancestors.length
  height_lt {k p} h := by cases k <;> cases h <;> decide

theorem ancestors_hierarchy (k : Kind) : hierarchy.ancestors k = k.ancestors := by
  cases k <;> rfl

variable (a b : Kind)

theorem order_hierarchy : hierarchy.order a b = Linearization.pairs a.ancestors b.ancestors := by
  rw [Hierarchy.order, ancestors_hierarchy, ancestors_hierarchy]

/-! ### The table -/

theorem getElem?_flatMap_map {α β γ : Type} (f : α → β → γ) (xs : List α) (ys : List β) {i j : Nat} {x : α} {y : β} (hx : xs[i]? = some x)
    (hy : ys[j]? = some y) : (xs.flatMap fun x => ys.map (f x))[i * ys.length + j]? = some (f x y) := by
  induction xs generalizing i with
  | nil => cases hx
  | cons z xs ih =>
    have hj : j < ys.length := (List.getElem?_eq_some_iff.1 hy).1
    cases i with
    | zero =>
      cases hx
      rw [Nat.zero_mul, Nat.zero_add, flatMap_cons, List.getElem?_append_left (by simpa using hj), List.getElem?_map, hy]
      rfl
    | succ i =>
      rw [flatMap_cons, List.getElem?_append_right (by simp [Nat.succ_mul]; omega)]
      simpa [Nat.succ_mul, Nat.add_right_comm _ ys.length] using ih hx

theorem names_index (k : Kind) : names[k.index]? = some (k, k.text) := by
  cases k <;> rfl

theorem tabledOrder_eq : tabledOrder a b = pairOrder a b := by
  rw [tabledOrder, orderTable, getElem?_toArray,
    getElem?_flatMap_map (fun a b : Kind × String => pairOrder a.1 b.1) names names (names_index a) (names_index b)]
  rfl

theorem pairOrder_eq : pairOrder a b = (hierarchy.order a b).getD [] := by
  rw [pairOrder, order_hierarchy]

theorem lookupPair_eq {β : Type} (handlers : List ((Kind × Kind) × β)) (a b : Kind) : lookupPair handlers a b = hierarchy.lookup handlers a b := by
  rw [lookupPair, tabledOrder_eq, pairOrder_eq, Hierarchy.lookup]

end Kind

/-- **Dispatch finds a most specific handler.**  In every hierarchy the order of the pairs above a pair is never stuck, lists each of
them once and no pair before one that it is strictly wider than, and a handler that is found along it is one of the most specific ones
that apply.  The kinds of annotations are such a hierarchy. -/
theorem dispatch_most_specific : (∀ {κ : Type} [DecidableEq κ] (H : Hierarchy κ) (a b : κ), (∃ l, H.order a b = some l ∧ H.Linear a b l) ∧
      ∀ {β : Type} (handlers : List ((κ × κ) × β)), H.Dispatches handlers a b (H.lookup handlers a b)) ∧
    ∀ a b : Kind, (∃ l, Linearization.pairs a.ancestors b.ancestors = some l ∧ Kind.hierarchy.Linear a b l) ∧
      ∀ {β : Type} (handlers : List ((Kind × Kind) × β)), Kind.hierarchy.Dispatches handlers a b (Kind.lookupPair handlers a b) := by
  have general {κ : Type} [DecidableEq κ] (H : Hierarchy κ) (a b : κ) : (∃ l, H.order a b = some l ∧ H.Linear a b l) ∧
      ∀ {β : Type} (handlers : List ((κ × κ) × β)), H.Dispatches handlers a b (H.lookup handlers a b) := by
    refine ⟨⟨_, Hierarchy.order_eq a b, Hierarchy.linear_grid a b⟩, fun handlers => ?_⟩
    rw [Hierarchy.lookup, Hierarchy.order_eq]
    exact Hierarchy.dispatches_findSome? (Hierarchy.linear_grid a b) handlers
  refine ⟨general, fun a b => ?_⟩
  rw [← Kind.order_hierarchy]
  refine ⟨(general Kind.hierarchy a b).1, fun handlers => ?_⟩
  rw [Kind.lookupPair_eq]
  exact (general Kind.hierarchy a b).2 handlers

end FlowCompiler
