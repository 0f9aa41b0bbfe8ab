import Mathlib.Data.List.Nodup
import Mathlib.Data.List.Perm.Subperm
import FlowCompiler.Partition
import FlowCompiler.Proofs.Lookup

/-!
# Partitions are forests

Every key climbs through its parents to the representative of its class.  Compressing a path changes how far a key climbs,
but not where it arrives; linking one representative to another one takes everything that arrived there along.
-/

namespace FlowCompiler.Partition

open List Std.HashMap

variable {κ ι : Type} [BEq κ] [Hashable κ]

/-- A key climbs to a representative in a number of steps. -/
inductive Climbs (m : Std.HashMap κ κ) : κ → κ → Nat → Prop
  | root {r : κ} (h : m[r]? = some r) : Climbs m r r 0
  | step {k q r : κ} {n : Nat} (h : m[k]? = some q) (hne : q ≠ k) (hq : Climbs m q r n) : Climbs m k r (n + 1)

namespace Climbs

variable {m : Std.HashMap κ κ} {k q r s x : κ} {n i : Nat}

theorem isRoot (h : Climbs m k r n) : m[r]? = some r := by
  induction h with
  | root h => exact h
  | step _ _ _ ih => exact ih

theorem unique (h : Climbs m k r n) (h' : Climbs m k s i) : r = s ∧ n = i := by
  induction h generalizing i with
  | root h =>
    cases h' with
    | root _ => exact ⟨rfl, rfl⟩
    | step e hne _ =>
      rw [h] at e
      cases e
      exact absurd rfl hne
  | step h hne _ ih =>
    cases h' with
    | root e =>
      rw [h] at e
      cases e
      exact absurd rfl hne
    | step e _ hq =>
      rw [h] at e
      cases e
      obtain ⟨rfl, rfl⟩ := ih hq
      exact ⟨rfl, rfl⟩

variable [LawfulBEq κ] [LawfulHashable κ]

theorem mem (h : Climbs m k r n) : k ∈ m := by
  rw [← isSome_getElem?_iff_mem]
  cases h with
  | root h => rw [h]; rfl
  | step h _ _ => rw [h]; rfl

theorem exists_path (h : Climbs m k r n) : ∃ path : List κ, path.length = n + 1 ∧ path.Nodup ∧ ∀ x ∈ path, x ∈ m ∧ ∃ i ≤ n, Climbs m x r i := by
  induction h with
  | root h => exact ⟨[_], rfl, nodup_singleton _, by simpa using ⟨(Climbs.root h).mem, .root h⟩⟩
  | @step k q r n h hne hq ih =>
    obtain ⟨path, hlen, hnd, hall⟩ := ih
    have hk : Climbs m k r (n + 1) := .step h hne hq
    refine ⟨k :: path, by rw [length_cons, hlen], nodup_cons.2 ⟨fun hmem => ?_, hnd⟩, ?_⟩
    · obtain ⟨-, i, hi, hc⟩ := hall k hmem
      have := (hk.unique hc).2
      omega
    · intro x hx
      rcases mem_cons.1 hx with rfl | hx
      · exact ⟨hk.mem, _, Nat.le_refl _, hk⟩
      · obtain ⟨hm, i, hi, hc⟩ := hall x hx
        exact ⟨hm, i, Nat.le_succ_of_le hi, hc⟩

theorem lt_size (h : Climbs m k r n) : n < m.size := by
  obtain ⟨path, hlen, hnd, hall⟩ := h.exists_path
  have hsub : path ⊆ m.keys := fun x hx => mem_keys.2 (hall x hx).1
  have := (subperm_of_subset hnd hsub).length_le
  rw [length_keys, hlen] at this
  omega

theorem insert (hk : Climbs m k r n) (h : Climbs m x s i) : ∃ j, Climbs (m.insert k r) x s j := by
  have hroot : (m.insert k r)[r]? = some r := by
    rw [Std.HashMap.getElem?_insert]
    split
    · rfl
    · exact hk.isRoot
  induction h with
  | @root x h =>
    by_cases e : k = x
    · subst e
      obtain ⟨rfl, -⟩ := hk.unique (.root h)
      exact ⟨0, .root hroot⟩
    · exact ⟨0, .root (by rwa [Std.HashMap.getElem?_insert, if_neg (by simpa using e)])⟩
  | @step x q s i h hne hq ih =>
    by_cases e : k = x
    · subst e
      obtain ⟨rfl, -⟩ := hk.unique (.step h hne hq)
      have hr : r ≠ k := by
        rintro rfl
        have := (hk.unique (.root hk.isRoot)).2
        have := (hk.unique (.step h hne hq)).2
        omega
      exact ⟨1, .step Std.HashMap.getElem?_insert_self hr (.root hroot)⟩
    · obtain ⟨j, hj⟩ := ih
      exact ⟨j + 1, .step (by rwa [Std.HashMap.getElem?_insert, if_neg (by simpa using e)]) hne hj⟩

theorem link {a b : κ} (ha : m[a]? = some a) (hb : m[b]? = some b) (hab : a ≠ b) (h : Climbs m x s i) :
    ∃ j, Climbs (m.insert b a) x (if s == b then a else s) j := by
  have kept {y q : κ} (hy : b ≠ y) (h : m[y]? = some q) : (m.insert b a)[y]? = some q := by
    rwa [Std.HashMap.getElem?_insert, if_neg (by simpa using hy)]
  induction h with
  | @root x h =>
    by_cases e : x = b
    · subst e
      rw [if_pos (beq_self_eq_true x)]
      exact ⟨1, .step Std.HashMap.getElem?_insert_self hab (.root (kept hab.symm ha))⟩
    · rw [if_neg (by simpa using e)]
      exact ⟨0, .root (kept (.symm e) h)⟩
  | @step x q s i h hne hq ih =>
    have hx : b ≠ x := by
      rintro rfl
      rw [hb] at h
      exact hne (Option.some.inj h).symm
    obtain ⟨j, hj⟩ := ih
    exact ⟨j + 1, .step (kept hx h) hne hj⟩

theorem insert_new {a : κ} (ha : a ∉ m) (h : Climbs m x s i) : ∃ j, Climbs (m.insert a a) x s j := by
  have kept {y q : κ} (h : m[y]? = some q) : (m.insert a a)[y]? = some q := by
    rw [Std.HashMap.getElem?_insert, if_neg, h]
    intro e
    obtain rfl := eq_of_beq e
    rw [Std.HashMap.getElem?_eq_none ha] at h
    cases h
  induction h with
  | root h => exact ⟨0, .root (kept h)⟩
  | step h hne _ ih =>
    obtain ⟨j, hj⟩ := ih
    exact ⟨j + 1, .step (kept h) hne hj⟩

end Climbs

variable {p p' p'' : Partition κ ι} {a b k r x : κ} {n : Nat}

/-- Every key climbs to a representative, and it is the representatives that have information. -/
structure Wf (p : Partition κ ι) : Prop where
  climbs : ∀ {k : κ}, k ∈ p.parent → ∃ r n, Climbs p.parent k r n
  info : ∀ {r : κ}, (p.infoOf? r).isSome ↔ p.parent[r]? = some r

/-- The information of a key's class. -/
def classInfo? (p : Partition κ ι) (k : κ) : Option ι := p.infoOf? (p.rep k)

/-- A later partition, in which keys and classes may have come and classes may have been made one. -/
structure Coarser (p p' : Partition κ ι) : Prop where
  mem : ∀ {k : κ}, k ∈ p.parent → k ∈ p'.parent
  rep : ∀ {k l : κ}, k ∈ p.parent → l ∈ p.parent → p.rep k = p.rep l → p'.rep k = p'.rep l

/-- A later partition, in which classes of new keys may have come and all others are what they were. -/
structure Extends (p p' : Partition κ ι) : Prop where
  mem : ∀ {k : κ}, k ∈ p.parent → k ∈ p'.parent
  rep : ∀ {k : κ}, k ∈ p.parent → p'.rep k = p.rep k
  size : ∀ {k : κ}, k ∈ p.parent → p'.size[k]? = p.size[k]?
  info : ∀ {k : κ}, k ∈ p.parent → p'.infoOf? k = p.infoOf? k

/-- One class is taken into another one, whose representative stays. -/
structure Takes (s t : κ) (i : ι) (p p' : Partition κ ι) : Prop where
  mem : ∀ {k : κ}, k ∈ p'.parent ↔ k ∈ p.parent
  rep : ∀ {k : κ}, k ∈ p.parent → p'.rep k = if p.rep k == t then s else p.rep k
  info : ∀ {k : κ}, k ∈ p.parent → p'.classInfo? k = if p.rep k == s || p.rep k == t then some i else p.classInfo? k

/-- The classes of two keys are one, if they were not before, and it has the information of one of them. -/
structure Joins (a b : κ) (merged : Option (ι × ι)) (p p' : Partition κ ι) : Prop where
  coarser : p.Coarser p'
  mem : ∀ {k : κ}, k ∈ p'.parent → k ∈ p.parent
  joined : p'.rep a = p'.rep b
  ends : ∀ {i j : ι}, merged = some (i, j) → p.classInfo? a = some i ∧ p.classInfo? b = some j ∨ p.classInfo? b = some i ∧ p.classInfo? a = some j
  info : ∀ {k : κ}, k ∈ p.parent → p'.classInfo? k = p.classInfo? k ∨
    ∃ i j, merged = some (i, j) ∧ p'.classInfo? k = some i ∧ (p.classInfo? k = some i ∨ p.classInfo? k = some j)

namespace Extends

theorem trans (h : p.Extends p') (h' : p'.Extends p'') : p.Extends p'' where
  mem hk := h'.mem (h.mem hk)
  rep hk := (h'.rep (h.mem hk)).trans (h.rep hk)
  size hk := (h'.size (h.mem hk)).trans (h.size hk)
  info hk := (h'.info (h.mem hk)).trans (h.info hk)

theorem coarser (h : p.Extends p') : p.Coarser p' := ⟨h.mem, fun hk hl e => by rw [h.rep hk, h.rep hl, e]⟩

end Extends

namespace Coarser

theorem refl (p : Partition κ ι) : p.Coarser p := ⟨id, fun _ _ => id⟩

theorem trans (h : p.Coarser p') (h' : p'.Coarser p'') : p.Coarser p'' :=
  ⟨fun hk => h'.mem (h.mem hk), fun hk hl e => h'.rep (h.mem hk) (h.mem hl) (h.rep hk hl e)⟩

end Coarser

variable {merged : Option (ι × ι)}

theorem Joins.symm (h : Joins a b merged p p') : Joins b a merged p p' := ⟨h.coarser, h.mem, h.joined.symm, fun e => (h.ends e).symm, h.info⟩

variable [LawfulBEq κ]

theorem root_eq (h : Climbs p.parent k r n) {fuel : Nat} (hf : n ≤ fuel) : p.root fuel k = r := by
  induction h generalizing fuel with
  | root h =>
    cases fuel with
    | zero => rfl
    | succ fuel => simp [root, h]
  | @step k q r n h hne _ ih =>
    cases fuel with
    | zero => omega
    | succ fuel =>
      rw [root, h]
      simpa [hne] using ih (by omega)

theorem Takes.joins {i j : ι} (h : Takes (p.rep a) (p.rep b) i p p') (ha : a ∈ p.parent) (hb : b ∈ p.parent)
    (hi : p.classInfo? a = some i) (hj : p.classInfo? b = some j) : Joins a b (some (i, j)) p p' := by
  refine ⟨⟨h.mem.2, fun hk hl e => by rw [h.rep hk, h.rep hl, e]⟩, h.mem.1, ?_, fun e => ?_, fun {k} hk => ?_⟩
  · rw [h.rep ha, h.rep hb, beq_self_eq_true, if_pos rfl, ite_self]
  · cases e
    exact .inl ⟨hi, hj⟩
  · rw [h.info hk]
    split
    · rename_i hk
      rcases Bool.or_eq_true_iff.1 hk with e | e
      · exact .inr ⟨i, j, rfl, rfl, .inl (by rw [classInfo?, eq_of_beq e]; exact hi)⟩
      · exact .inr ⟨i, j, rfl, rfl, .inr (by rw [classInfo?, eq_of_beq e]; exact hj)⟩
    · exact .inl rfl

variable [LawfulHashable κ]

theorem rep_eq (h : Climbs p.parent k r n) : p.rep k = r := root_eq h (Nat.le_of_lt h.lt_size)

theorem climbs_compress {m : Std.HashMap κ κ} (h : Climbs m k r n) (fuel : Nat) :
    (∀ x, x ∈ compress m r fuel k ↔ x ∈ m) ∧ ∀ x s i, Climbs m x s i → ∃ j, Climbs (compress m r fuel k) x s j := by
  induction fuel generalizing m k n with
  | zero => exact ⟨fun _ => .rfl, fun _ _ i h => ⟨i, h⟩⟩
  | succ fuel ih =>
    unfold compress
    split
    · exact ⟨fun _ => .rfl, fun _ _ i h => ⟨i, h⟩⟩
    · rename_i hne
      cases h with
      | root _ => exact absurd (beq_self_eq_true _) hne
      | @step _ q _ n hm hqk hq =>
        have hk : Climbs m k r (n + 1) := .step hm hqk hq
        obtain ⟨j, hj⟩ := hk.insert hq
        obtain ⟨hmem, hclimb⟩ := ih hj
        rw [hm]
        refine ⟨fun x => (hmem x).trans ?_, fun x s i hx => ?_⟩
        · rw [mem_insert]
          exact ⟨fun h => h.elim (fun e => eq_of_beq e ▸ hk.mem) id, .inr⟩
        · obtain ⟨j, hj⟩ := hk.insert hx
          exact hclimb x s j hj

namespace Wf

section

variable (hp : p.Wf) (hk : k ∈ p.parent)
include hp hk

theorem climbs_rep : ∃ n, Climbs p.parent k (p.rep k) n := by
  obtain ⟨r, n, h⟩ := hp.climbs hk
  exact ⟨n, rep_eq h ▸ h⟩

theorem rep_isRoot : p.parent[p.rep k]? = some (p.rep k) := by
  obtain ⟨n, h⟩ := hp.climbs_rep hk
  exact h.isRoot

theorem rep_mem : p.rep k ∈ p.parent := by
  rw [← isSome_getElem?_iff_mem, hp.rep_isRoot hk]
  rfl

theorem exists_classInfo : ∃ i, p.classInfo? k = some i := Option.isSome_iff_exists.1 (hp.info.2 (hp.rep_isRoot hk))

end

end Wf

theorem Extends.classInfo? (h : p.Extends p') (hp : p.Wf) (hk : k ∈ p.parent) : p'.classInfo? k = p.classInfo? k := by
  rw [Partition.classInfo?, h.rep hk, h.info (hp.rep_mem hk), Partition.classInfo?]

/-! ## Finding -/

namespace Wf

theorem compressed (hp : p.Wf) (hk : k ∈ p.parent) : (p.compressed k).Wf ∧ p.Extends (p.compressed k) ∧
    ∀ x, x ∈ (p.compressed k).parent ↔ x ∈ p.parent := by
  obtain ⟨n, h⟩ := hp.climbs_rep hk
  obtain ⟨hmem, hclimb⟩ := climbs_compress h p.parent.size
  have hrep {x : κ} (hx : x ∈ p.parent) : ∃ j, Climbs (p.compressed k).parent x (p.rep x) j := by
    obtain ⟨i, hi⟩ := hp.climbs_rep hx
    exact hclimb _ _ _ hi
  refine ⟨⟨fun hx => ⟨_, hrep ((hmem _).1 hx)⟩, fun {r} => hp.info.trans ⟨fun hr => ?_, fun hr => ?_⟩⟩, ?_, hmem⟩
  · obtain ⟨j, hj⟩ := hclimb r r 0 (.root hr)
    exact hj.isRoot
  · have hr' : r ∈ p.parent := by
      rw [← hmem, ← isSome_getElem?_iff_mem]
      exact congrArg Option.isSome hr
    obtain ⟨j, hj⟩ := hrep hr'
    have e := (hj.unique (.root hr)).1
    exact e ▸ hp.rep_isRoot hr'
  · refine ⟨fun hx => (hmem _).2 hx, fun hx => ?_, fun _ => rfl, fun _ => rfl⟩
    obtain ⟨j, hj⟩ := hrep hx
    exact rep_eq hj

theorem added (hp : p.Wf) (hk : k ∉ p.parent) (fresh : ι) {q : Partition κ ι} (hparent : q.parent = p.parent.insert k k)
    (hsize : q.size = p.size.insert k 1) (hinfo : q.info = p.info ++ [(k, fresh)]) : q.Wf ∧ p.Extends q ∧ q.rep k = k ∧ q.infoOf? k = some fresh := by
  have hself : q.parent[k]? = some k := by rw [hparent, Std.HashMap.getElem?_insert_self]
  have hother {x : κ} (hx : x ≠ k) : q.infoOf? x = p.infoOf? x ∧ q.parent[x]? = p.parent[x]? ∧ q.size[x]? = p.size[x]? := by
    have hx' : ¬ (k == x) = true := by simpa using hx.symm
    rw [infoOf?, hinfo, hparent, hsize, Std.HashMap.getElem?_insert, Std.HashMap.getElem?_insert, if_neg hx', if_neg hx', lookup_append]
    have hlast : [(k, fresh)].lookup x = none := by rw [lookup_cons, beq_eq_false_iff_ne.2 hx, lookup_nil]
    rw [hlast, Option.or_none]
    exact ⟨rfl, rfl, rfl⟩
  have hnone : p.infoOf? k = none := by
    rw [← Option.not_isSome_iff_eq_none, hp.info]
    intro e
    rw [Std.HashMap.getElem?_eq_none hk] at e
    cases e
  have hfresh : q.infoOf? k = some fresh := by
    rw [infoOf?, hinfo, lookup_append, show p.info.lookup k = none from hnone]
    simp
  have hrep {x : κ} (hx : x ∈ p.parent) : ∃ j, Climbs q.parent x (p.rep x) j := by
    obtain ⟨i, hi⟩ := hp.climbs_rep hx
    exact hparent ▸ hi.insert_new hk
  have hne {x : κ} (hx : x ∈ p.parent) : x ≠ k := fun e => hk (e ▸ hx)
  refine ⟨⟨fun {x} hx => ?_, fun {r} => ?_⟩, ⟨fun hx => ?_, fun hx => ?_, fun hx => (hother (hne hx)).2.2, fun hx => (hother (hne hx)).1⟩,
    rep_eq (.root hself), hfresh⟩
  · rw [hparent, Std.HashMap.mem_insert] at hx
    rcases hx with e | hx
    · exact ⟨k, 0, eq_of_beq e ▸ .root hself⟩
    · exact ⟨_, hrep hx⟩
  · by_cases e : r = k
    · subst e
      simp [hfresh, hself]
    · obtain ⟨h₁, h₂, -⟩ := hother e
      rw [h₁, h₂]
      exact hp.info
  · rw [hparent]
    exact Std.HashMap.mem_insert.2 (.inr hx)
  · obtain ⟨j, hj⟩ := hrep hx
    exact rep_eq hj

/-- **Finding a key** gives its representative and the information of its class, and leaves all classes as they are. -/
theorem find (hp : p.Wf) (k : κ) (fresh : ι) : ∃ q i, p.find k fresh = (q, q.rep k, i) ∧ q.Wf ∧ p.Extends q ∧
    (∀ x, x ∈ q.parent ↔ x ∈ p.parent ∨ x = k) ∧ q.classInfo? k = some i ∧ (k ∉ p.parent → i = fresh) := by
  unfold Partition.find
  split
  · rename_i hk
    obtain ⟨wf, ext, hmem⟩ := hp.compressed hk
    obtain ⟨i, hi⟩ := hp.exists_classInfo hk
    have hinfo : p.infoOf? (p.rep k) = some i := hi
    refine ⟨_, i, ?_, wf, ext, fun x => (hmem x).trans ⟨.inl, fun h => h.elim id fun e => e ▸ hk⟩, (ext.classInfo? hp hk).trans hi,
      fun h => absurd hk h⟩
    rw [ext.rep hk]
    change (p.compressed k, p.rep k, (p.infoOf? (p.rep k)).getD fresh) = _
    rw [hinfo, Option.getD_some]
  · rename_i hk
    obtain ⟨wf, ext, hrep, hinfo⟩ := hp.added (fun h => hk (mem_iff_contains.1 h)) fresh
      (q := { parent := p.parent.insert k k, size := p.size.insert k 1, info := p.info ++ [(k, fresh)] }) rfl rfl rfl
    refine ⟨_, fresh, by rw [hrep], wf, ext, fun x => ?_, ?_, fun _ => rfl⟩
    · rw [mem_insert, or_comm, beq_iff_eq, eq_comm]
    · rw [Partition.classInfo?, hrep, hinfo]

/-! ## Merging -/

theorem linked (hp : p.Wf) {s t : κ} (hs : p.parent[s]? = some s) (ht : p.parent[t]? = some t) (hst : s ≠ t) {i : ι}
    {q : Partition κ ι} (hparent : q.parent = p.parent.insert t s)
    (hinfo : q.info = (p.info.filter fun e => !(e.1 == t)).map fun e => if e.1 == s then (s, i) else e) : q.Wf ∧ Takes s t i p q := by
  have hinfo? (r : κ) : q.infoOf? r = if r == t then none else if r == s then some i else p.infoOf? r := by
    obtain ⟨j, hj⟩ := Option.isSome_iff_exists.1 (hp.info.2 hs)
    have hs' : p.info.lookup s = some j := hj
    have hst' : ¬ (s == t) = true := by simpa using hst
    rw [infoOf?, hinfo, Entries.lookup_replace, Entries.lookup_remove, Entries.lookup_remove, if_neg hst', hs', infoOf?]
    by_cases hr : r = t
    · simp [hr, hst.symm]
    · simp [hr]
  have hclimb {x : κ} (hx : x ∈ p.parent) : ∃ j, Climbs q.parent x (if p.rep x == t then s else p.rep x) j := by
    obtain ⟨n, h⟩ := hp.climbs_rep hx
    exact hparent ▸ h.link hs ht hst
  have hmem {x : κ} : x ∈ q.parent ↔ x ∈ p.parent := by
    rw [hparent, Std.HashMap.mem_insert]
    refine ⟨fun h => h.elim (fun e => ?_) id, .inr⟩
    rw [← eq_of_beq e, ← Std.HashMap.isSome_getElem?_iff_mem, ht]
    rfl
  have hrep {x : κ} (hx : x ∈ p.parent) : q.rep x = if p.rep x == t then s else p.rep x := by
    obtain ⟨j, hj⟩ := hclimb hx
    exact rep_eq hj
  refine ⟨⟨fun hx => ⟨_, hclimb (hmem.1 hx)⟩, fun {r} => ?_⟩, hmem, hrep, fun {x} hx => ?_⟩
  · rw [hinfo?, hparent, Std.HashMap.getElem?_insert]
    by_cases hr : r = t
    · subst hr
      simp [hst]
    · have hr' : ¬ (t == r) = true := by simpa using Ne.symm hr
      rw [if_neg (by simpa using hr), if_neg hr']
      by_cases e : r = s
      · subst e
        simp [hs]
      · rw [if_neg (by simpa using e)]
        exact hp.info
  · rw [classInfo?, hrep hx, hinfo?]
    by_cases e : p.rep x = t
    · simp [e, hst]
    · by_cases e' : p.rep x = s
      · simp [e', hst]
      · simp [e, e', classInfo?]

/-- **Merging two keys** leaves all classes as they are when the keys are in one already; otherwise the class of one is taken
into that of the other one, of which `absorb` makes the information. -/
theorem union (hp : p.Wf) (a b : κ) (freshA freshB : ι) (absorb : ι → ι → ι × Option Failure) :
    ∃ q i j, q.Wf ∧ p.Extends q ∧ (∀ x, x ∈ q.parent ↔ x ∈ p.parent ∨ x = a ∨ x = b) ∧ q.classInfo? a = some i ∧ q.classInfo? b = some j ∧
      if q.rep a == q.rep b then p.union a b freshA freshB absorb = { partition := q, changed := false, rep := q.rep a, info := i }
      else (p.union a b freshA freshB absorb).changed = true ∧ (p.union a b freshA freshB absorb).partition.Wf ∧
        if (q.size[q.rep a]?).getD 0 < (q.size[q.rep b]?).getD 0
        then Takes (q.rep b) (q.rep a) (absorb j i).1 q (p.union a b freshA freshB absorb).partition
        else Takes (q.rep a) (q.rep b) (absorb i j).1 q (p.union a b freshA freshB absorb).partition := by
  obtain ⟨q₁, i, e₁, wf₁, ext₁, mem₁, hi, -⟩ := hp.find a freshA
  obtain ⟨q, j, e₂, wf, ext₂, mem₂, hj, -⟩ := wf₁.find b freshB
  have ha₁ : a ∈ q₁.parent := (mem₁ a).2 (.inr rfl)
  have ha : a ∈ q.parent := ext₂.mem ha₁
  have hb : b ∈ q.parent := (mem₂ b).2 (.inr rfl)
  refine ⟨q, i, j, wf, ext₁.trans ext₂, fun x => by rw [mem₂, mem₁, or_assoc], (ext₂.classInfo? wf₁ ha₁).trans hi, hj, ?_⟩
  unfold Partition.union
  rw [e₁]
  dsimp only
  rw [e₂, ← ext₂.rep ha₁]
  dsimp only
  have roota := wf.rep_isRoot ha
  have rootb := wf.rep_isRoot hb
  split
  · rfl
  · rename_i hne
    have hne : q.rep a ≠ q.rep b := by simpa using hne
    split
    · exact ⟨rfl, wf.linked rootb roota hne.symm rfl rfl⟩
    · exact ⟨rfl, wf.linked roota rootb hne rfl rfl⟩

end Wf

theorem Joins.of_extends (h : Joins a b merged p' p'') (hp : p.Wf) (ext : p.Extends p')
    (hmem : ∀ x, x ∈ p'.parent → x ∈ p.parent) (ha : a ∈ p.parent) (hb : b ∈ p.parent) : Joins a b merged p p'' where
  coarser := ext.coarser.trans h.coarser
  mem hk := hmem _ (h.mem hk)
  joined := h.joined
  ends e := by
    rw [← ext.classInfo? hp ha, ← ext.classInfo? hp hb]
    exact h.ends e
  info hk := by
    rw [← ext.classInfo? hp hk]
    exact h.info (ext.mem hk)

/-- **Joining two keys** makes one class of theirs. -/
theorem Wf.join (hp : p.Wf) (ha : a ∈ p.parent) (hb : b ∈ p.parent) : (p.join a b).1.Wf ∧ Joins a b (p.join a b).2 p (p.join a b).1 := by
  obtain ⟨ia, hia⟩ := hp.exists_classInfo ha
  obtain ⟨ib, hib⟩ := hp.exists_classInfo hb
  obtain ⟨q, i, j, wf, ext, mem, hi, hj, h⟩ := hp.union a b ia ib fun x _ => (x, none)
  have ha' : a ∈ q.parent := ext.mem ha
  have hb' : b ∈ q.parent := ext.mem hb
  have hmem (x : κ) (hx : x ∈ q.parent) : x ∈ p.parent := by
    rcases (mem x).1 hx with hx | rfl | rfl
    · exact hx
    · exact ha
    · exact hb
  have hia' : p.infoOf? (p.rep a) = some ia := hia
  have hib' : p.infoOf? (p.rep b) = some ib := hib
  obtain rfl : ia = i := by
    rw [ext.classInfo? hp ha, hia] at hi
    exact Option.some.inj hi
  obtain rfl : ib = j := by
    rw [ext.classInfo? hp hb, hib] at hj
    exact Option.some.inj hj
  rw [Partition.join, hia', hib']
  dsimp only
  split at h
  · rename_i e
    rw [h]
    exact ⟨wf, ext.coarser, hmem _, eq_of_beq e, nofun, fun hk => .inl (ext.classInfo? hp hk)⟩
  · obtain ⟨hchanged, wf', takes⟩ := h
    have size {k : κ} (hk : k ∈ p.parent) : (q.size[q.rep k]?).getD 0 = (p.size[p.rep k]?).getD 0 := by
      rw [ext.rep hk, ext.size (hp.rep_mem hk)]
    rw [hchanged, if_pos rfl]
    rw [size ha, size hb] at takes
    refine ⟨wf', ?_⟩
    split at takes
    · rename_i hlt
      rw [if_pos hlt]
      exact (takes.joins hb' ha' hj hi).symm.of_extends hp ext hmem ha hb
    · rename_i hlt
      rw [if_neg hlt]
      exact (takes.joins ha' hb' hi hj).of_extends hp ext hmem ha hb

theorem Wf.join_unknown (hp : p.Wf) (h : a ∉ p.parent ∨ b ∉ p.parent) : p.join a b = (p, none) := by
  have none {k : κ} (hk : k ∉ p.parent) : p.infoOf? (p.rep k) = none := by
    have unknown := getElem?_eq_none hk
    have hrep : p.rep k = k := by
      rw [rep]
      cases p.parent.size with
      | zero => rfl
      | succ n => rw [root, unknown]
    rw [hrep, ← Option.not_isSome_iff_eq_none, hp.info, unknown]
    simp
  rw [Partition.join]
  rcases h with h | h
  · rw [none h]
  · rw [none h]
    cases p.infoOf? (p.rep a) <;> rfl

end FlowCompiler.Partition
