import Mathlib.Logic.Relation
import Mathlib.SetTheory.Cardinal.Finite
import FlowCompiler.Proofs.Partition

/-!
# What a partition remembers of its merges

A partition is used through four calls: a key is found, looked up or asked for, and two keys are merged.  After any calls,
two keys have one representative exactly if a chain of merges leads from one to the other one (`Represents.connected`), and
the information of a class is made of that of its members, of each of them once (`Represents.classes`).

`Represents` is kept by what the calls are made of, which is compressing a path, adding a key and linking one
representative to another one.  Nothing of this asks whether the information could be absorbed: a merge that fails has been
made all the same, and `union_failed` says what is found afterwards.
-/

namespace FlowCompiler.Partition

open List Option Std.HashMap

variable {κ : Type}

/-- What a partition is asked. -/
inductive Call (κ : Type) where
  | find (k : κ)
  | lookup (k : κ)
  | contains (k : κ)
  | union (a b : κ)
deriving DecidableEq, Repr

/-- The keys that a call makes known. -/
def Call.keys : Call κ → List κ
  | .find k => [k]
  | .lookup _ => []
  | .contains _ => []
  | .union a b => [a, b]

/-- A chain of merges leads from one key to another one. -/
def Connected (calls : List (Call κ)) : κ → κ → Prop := Relation.EqvGen fun a b => .union a b ∈ calls

variable {calls calls' : List (Call κ)} {a b k l r : κ}

namespace Connected

theorem refl (k : κ) : Connected calls k k := Relation.EqvGen.refl k

theorem symm (h : Connected calls k l) : Connected calls l k := Relation.EqvGen.symm _ _ h

theorem trans (h : Connected calls k l) (h' : Connected calls l r) : Connected calls k r := Relation.EqvGen.trans _ _ _ h h'

theorem mono (h : Connected calls k l) (sub : ∀ a b, .union a b ∈ calls → .union a b ∈ calls') : Connected calls' k l :=
  Relation.EqvGen.mono sub _ _ h

theorem congr (same : ∀ a b, .union a b ∈ calls ↔ .union a b ∈ calls') : Connected calls k l ↔ Connected calls' k l :=
  ⟨fun h => h.mono fun a b => (same a b).1, fun h => h.mono fun a b => (same a b).2⟩

theorem known (h : Connected calls k l) : k ∈ calls.flatMap Call.keys ↔ l ∈ calls.flatMap Call.keys := by
  induction h with
  | rel a b h =>
    have mem {k : κ} (hk : k ∈ [a, b]) : k ∈ calls.flatMap Call.keys := mem_flatMap.2 ⟨.union a b, h, hk⟩
    exact iff_of_true (mem (by simp)) (mem (by simp))
  | refl k => exact .rfl
  | symm _ _ _ ih => exact ih.symm
  | trans _ _ _ _ _ ih ih' => exact ih.trans ih'

theorem eq_of_unknown (h : Connected calls k l) (hk : k ∉ calls.flatMap Call.keys) : k = l := by
  induction h with
  | rel a b h => exact absurd (mem_flatMap.2 ⟨.union a b, h, by simp [Call.keys]⟩) hk
  | refl k => rfl
  | symm _ _ h ih => exact (ih ((known h).not.2 hk)).symm
  | trans _ _ _ h _ ih ih' => exact (ih hk).trans (ih' ((known h).not.1 hk))

theorem concat_find : Connected (calls ++ [.find a]) k l ↔ Connected calls k l := congr fun a b => by simp

theorem concat_union : Connected (calls ++ [.union a b]) k l ↔
    Connected calls k l ∨ (Connected calls k a ∧ Connected calls l b) ∨ (Connected calls k b ∧ Connected calls l a) := by
  refine ⟨fun h => ?_, fun h => ?_⟩
  · induction h with
    | rel x y h =>
      rcases mem_append.1 h with h | h
      · exact .inl (.rel x y h)
      · cases mem_singleton.1 h
        exact .inr (.inl ⟨refl _, refl _⟩)
    | refl k => exact .inl (refl k)
    | symm _ _ _ ih =>
      rcases ih with h | ⟨h, h'⟩ | ⟨h, h'⟩
      · exact .inl h.symm
      · exact .inr (.inr ⟨h', h⟩)
      · exact .inr (.inl ⟨h', h⟩)
    | trans _ _ _ _ _ ih ih' =>
      rcases ih with h | ⟨h, h'⟩ | ⟨h, h'⟩ <;> rcases ih' with g | ⟨g, g'⟩ | ⟨g, g'⟩
      · exact .inl (h.trans g)
      · exact .inr (.inl ⟨h.trans g, g'⟩)
      · exact .inr (.inr ⟨h.trans g, g'⟩)
      · exact .inr (.inl ⟨h, g.symm.trans h'⟩)
      · exact .inr (.inl ⟨h, g'⟩)
      · exact .inl (h.trans g'.symm)
      · exact .inr (.inr ⟨h, g.symm.trans h'⟩)
      · exact .inl (h.trans g'.symm)
      · exact .inr (.inr ⟨h, g'⟩)
  · have kept {x y : κ} (h : Connected calls x y) : Connected (calls ++ [.union a b]) x y := h.mono fun _ _ h => mem_append_left _ h
    have new : Connected (calls ++ [.union a b]) a b := .rel a b (by simp)
    rcases h with h | ⟨h, h'⟩ | ⟨h, h'⟩
    · exact kept h
    · exact (kept h).trans (new.trans (kept h').symm)
    · exact (kept h).trans (new.symm.trans (kept h').symm)

end Connected

/-- Later calls are about the same keys and merge two of them. -/
structure Bridges (a b : κ) (calls calls' : List (Call κ)) : Prop where
  keys : ∀ k, k ∈ calls'.flatMap Call.keys ↔ k ∈ calls.flatMap Call.keys
  chains : ∀ {k l : κ}, Connected calls' k l ↔
    Connected calls k l ∨ (Connected calls k a ∧ Connected calls l b) ∨ (Connected calls k b ∧ Connected calls l a)

theorem Bridges.symm (h : Bridges a b calls calls') : Bridges b a calls calls' := ⟨h.keys, h.chains.trans (or_congr_right or_comm)⟩

/-! ## Representing merges -/

variable {ι : Type} [BEq κ] [Hashable κ]

/-- The information of a new key, and what is left of that of two classes that are merged. -/
structure Content (κ ι : Type) where
  fresh : κ → ι
  absorb : ι → ι → ι × Option Failure

/-- What a call leaves, and its failure. -/
def step (c : Content κ ι) (p : Partition κ ι) : Call κ → Partition κ ι × Option Failure
  | .find k => ((p.find k (c.fresh k)).1, none)
  | .lookup k => ((p.lookup k).1, none)
  | .contains _ => (p, none)
  | .union a b =>
    let m := p.union a b (c.fresh a) (c.fresh b) c.absorb
    (m.partition, m.failure)

/-- The partition after some calls, of which some may have failed. -/
def run (c : Content κ ι) (p : Partition κ ι) (calls : List (Call κ)) : Partition κ ι := calls.foldl (fun p x => (step c p x).1) p

/-- The information that is made of that of some keys, each of which is used once. -/
inductive Absorbed (c : Content κ ι) : List κ → ι → Prop
  | fresh (k : κ) : Absorbed c [k] (c.fresh k)
  | absorb {ks ls : List κ} {i j : ι} (hi : Absorbed c ks i) (hj : Absorbed c ls j) : Absorbed c (ks ++ ls) (c.absorb i j).1

/-- The members of the class of a representative, each once. -/
structure Members (p : Partition κ ι) (r : κ) (ks : List κ) : Prop where
  nodup : ks.Nodup
  mem : ∀ {k : κ}, k ∈ ks ↔ k ∈ p.parent ∧ p.rep k = r

/-- A partition that stands for the merges that were made. -/
structure Represents (c : Content κ ι) (calls : List (Call κ)) (p : Partition κ ι) : Prop where
  wf : p.Wf
  /-- The keys that calls have made known. -/
  known : ∀ {k : κ}, k ∈ p.parent ↔ k ∈ calls.flatMap Call.keys
  /-- Representatives tell what has been merged. -/
  connected : ∀ {k l : κ}, k ∈ p.parent → l ∈ p.parent → (p.rep k = p.rep l ↔ Connected calls k l)
  /-- No representative has information twice. -/
  distinct : (p.info.map Prod.fst).Nodup
  /-- The information of a class is that of its members, and its size is their number. -/
  classes : ∀ {r : κ} {i : ι}, p.infoOf? r = some i → ∃ ks, p.Members r ks ∧ p.size[r]? = some ks.length ∧ Absorbed c ks i

/-- Two partitions that differ in the way to the representatives only. -/
structure Alike (p q : Partition κ ι) : Prop where
  mem : ∀ {k : κ}, k ∈ q.parent ↔ k ∈ p.parent
  rep : ∀ {k : κ}, k ∈ p.parent → q.rep k = p.rep k
  size : q.size = p.size
  info : q.info = p.info

variable {c : Content κ ι} {p q : Partition κ ι} {s : κ}

theorem Members.congr {ks : List κ} (h : p.Members r ks) (hq : ∀ k, k ∈ q.parent ∧ q.rep k = s ↔ k ∈ p.parent ∧ p.rep k = r) :
    q.Members s ks := ⟨h.nodup, h.mem.trans (hq _).symm⟩

namespace Alike

theorem infoOf? (h : p.Alike q) (r : κ) : q.infoOf? r = p.infoOf? r := by rw [Partition.infoOf?, h.info, Partition.infoOf?]

theorem members {ks : List κ} (h : p.Alike q) (hk : p.Members r ks) : q.Members r ks :=
  hk.congr fun _ => ⟨fun ⟨hk, e⟩ => ⟨h.mem.1 hk, h.rep (h.mem.1 hk) ▸ e⟩, fun ⟨hk, e⟩ => ⟨h.mem.2 hk, h.rep hk ▸ e⟩⟩

end Alike

namespace Represents

theorem congr (h : Represents c calls p) (keys : ∀ k, k ∈ calls'.flatMap Call.keys ↔ k ∈ calls.flatMap Call.keys)
    (same : ∀ k l, Connected calls' k l ↔ Connected calls k l) : Represents c calls' p where
  wf := h.wf
  known := h.known.trans (keys _).symm
  connected hk hl := (h.connected hk hl).trans (same _ _).symm
  distinct := h.distinct
  classes := h.classes

theorem joined (h : Represents c calls p) (bridge : Bridges a b calls calls') (ha : a ∈ p.parent) (hb : b ∈ p.parent)
    (e : p.rep a = p.rep b) : Represents c calls' p := by
  have hab := (h.connected ha hb).1 e
  refine h.congr bridge.keys fun x y => bridge.chains.trans (or_iff_left_of_imp ?_)
  rintro (⟨hx, hy⟩ | ⟨hx, hy⟩)
  · exact hx.trans (hab.trans hy.symm)
  · exact hx.trans (hab.symm.trans hy.symm)

theorem alike (h : Represents c calls p) (hq : p.Alike q) (wf : q.Wf) : Represents c calls q where
  wf := wf
  known := hq.mem.trans h.known
  connected hk hl := by
    rw [hq.mem] at hk hl
    rw [hq.rep hk, hq.rep hl, h.connected hk hl]
  distinct := hq.info ▸ h.distinct
  classes hi := by
    rw [hq.infoOf?] at hi
    obtain ⟨ks, hks, size, absorbed⟩ := h.classes hi
    exact ⟨ks, hq.members hks, hq.size ▸ size, absorbed⟩

end Represents

variable [LawfulBEq κ]

theorem Represents.infoOf?_eq_some_iff (h : Represents c calls p) {i : ι} : p.infoOf? r = some i ↔ (r, i) ∈ p.info :=
  Entries.lookup_eq_some_iff h.distinct

namespace Takes

variable {t : κ} {i : ι} {ks ls : List κ}

/-- Only the two classes become one. -/
theorem rep_eq_iff (h : Takes s t i p q) (hst : s ≠ t) (hk : k ∈ p.parent) (hl : l ∈ p.parent) :
    q.rep k = q.rep l ↔ p.rep k = p.rep l ∨ (p.rep k = s ∧ p.rep l = t) ∨ (p.rep k = t ∧ p.rep l = s) := by
  rw [h.rep hk, h.rep hl]
  grind

theorem members_taken (h : Takes s t i p q) (hst : s ≠ t) (hks : p.Members s ks) (hls : p.Members t ls) : q.Members s (ks ++ ls) := by
  refine ⟨hks.nodup.append hls.nodup fun x hx hx' => hst ((hks.mem.1 hx).2.symm.trans (hls.mem.1 hx').2), fun {x} => ?_⟩
  rw [mem_append, hks.mem, hls.mem, h.mem, ← and_or_left]
  refine and_congr_right fun hx => ?_
  rw [h.rep hx]
  grind

theorem members_other (h : Takes s t i p q) (hrs : r ≠ s) (hrt : r ≠ t) (hks : p.Members r ks) : q.Members r ks := by
  refine hks.congr fun x => ?_
  rw [h.mem]
  refine and_congr_right fun hx => ?_
  rw [h.rep hx]
  grind

end Takes

variable [LawfulHashable κ]

namespace Wf

theorem isSome_infoOf? (hp : p.Wf) : (p.infoOf? r).isSome ↔ r ∈ p.parent ∧ p.rep r = r := by
  rw [hp.info]
  refine ⟨fun h => ⟨?_, rep_eq (.root h)⟩, fun ⟨h, e⟩ => ?_⟩
  · rw [← isSome_getElem?_iff_mem, h]
    rfl
  · have := hp.rep_isRoot h
    rwa [e] at this

theorem rep_rep (hp : p.Wf) (hk : k ∈ p.parent) : p.rep (p.rep k) = p.rep k := rep_eq (.root (hp.rep_isRoot hk))

/-- Compressing a path changes the way to the representatives only. -/
theorem alike_compressed (hp : p.Wf) (hk : k ∈ p.parent) : p.Alike (p.compressed k) := by
  obtain ⟨-, ext, mem⟩ := hp.compressed hk
  exact ⟨mem _, ext.rep, rfl, rfl⟩

end Wf

/-! ## What the calls are made of -/

namespace Represents

section

variable (h : Represents c calls p)
include h

theorem added (hk : k ∉ p.parent) (hparent : q.parent = p.parent.insert k k) (hsize : q.size = p.size.insert k 1)
    (hinfo : q.info = p.info ++ [(k, c.fresh k)]) : Represents c (calls ++ [.find k]) q := by
  obtain ⟨wf, ext, hrep, hfresh⟩ := h.wf.added hk (c.fresh k) hparent hsize hinfo
  have mem {x : κ} : x ∈ q.parent ↔ x ∈ p.parent ∨ x = k := by
    rw [hparent, mem_insert, or_comm, beq_iff_eq, eq_comm]
  have rep_ne {x : κ} (hx : x ∈ p.parent) : p.rep x ≠ k := fun e => hk (e ▸ h.wf.rep_mem hx)
  have apart {x : κ} (hx : x ∈ p.parent) : ¬ Connected calls k x := fun hc => hk (hc.eq_of_unknown (h.known.not.1 hk) ▸ hx)
  refine ⟨wf, ?_, fun {x y} hx hy => ?_, ?_, fun {r i} hi => ?_⟩
  · intro x
    rw [mem, h.known, flatMap_append, mem_append]
    simp [Call.keys]
  · rw [Connected.concat_find]
    rcases mem.1 hx with hx' | ex <;> rcases mem.1 hy with hy' | ey
    · rw [ext.rep hx', ext.rep hy', h.connected hx' hy']
    · rw [ext.rep hx', ey, hrep]
      exact iff_of_false (rep_ne hx') fun hc => apart hx' hc.symm
    · rw [ext.rep hy', ex, hrep]
      exact iff_of_false (rep_ne hy').symm (apart hy')
    · rw [ex, ey]
      exact iff_of_true rfl (.refl _)
  · rw [hinfo, map_append]
    refine h.distinct.append (nodup_singleton _) (disjoint_singleton.2 fun hmem => ?_)
    exact hk (h.wf.isSome_infoOf?.1 (Entries.isSome_lookup.2 hmem)).1
  · obtain ⟨hr, er⟩ := wf.isSome_infoOf?.1 (isSome_iff_exists.2 ⟨i, hi⟩)
    rcases mem.1 hr with hr' | e
    · have hrk : r ≠ k := fun e => hk (e ▸ hr')
      obtain ⟨ks, hks, size, absorbed⟩ := h.classes (ext.info hr' ▸ hi)
      refine ⟨ks, hks.congr fun x => ⟨fun ⟨hx, e⟩ => ?_, fun ⟨hx, e⟩ => ⟨mem.2 (.inl hx), (ext.rep hx).trans e⟩⟩, (ext.size hr').trans size, absorbed⟩
      rcases mem.1 hx with hx' | ex
      · exact ⟨hx', (ext.rep hx').symm.trans e⟩
      · exact absurd (e.symm.trans (ex ▸ hrep)) (ex ▸ hrk)
    · subst e
      obtain rfl : c.fresh r = i := some.inj (hfresh.symm.trans hi)
      refine ⟨[r], ⟨nodup_singleton r, fun {x} => ?_⟩, hsize ▸ getElem?_insert_self, .fresh r⟩
      rw [mem_singleton]
      refine ⟨fun e => by rw [e]; exact ⟨hr, er⟩, fun ⟨hx, e⟩ => ?_⟩
      rcases mem.1 hx with hx' | ex
      · exact absurd ((ext.rep hx').symm.trans e) (rep_ne hx')
      · exact ex

theorem linked (bridge : Bridges a b calls calls') (ha : a ∈ p.parent) (hb : b ∈ p.parent) (hne : p.rep a ≠ p.rep b) {i j : ι}
    (hi : p.infoOf? (p.rep a) = some i) (hj : p.infoOf? (p.rep b) = some j) {n : Nat} (hn : n = (p.size[p.rep a]?).getD 0 + (p.size[p.rep b]?).getD 0)
    (hparent : q.parent = p.parent.insert (p.rep b) (p.rep a)) (hsize : q.size = (p.size.insert (p.rep a) n).erase (p.rep b))
    (hinfo : q.info = (p.info.filter fun e => !(e.1 == p.rep b)).map fun e =>
      if e.1 == p.rep a then (p.rep a, (c.absorb i j).1) else e) : Represents c calls' q := by
  obtain ⟨wf, takes⟩ := h.wf.linked (h.wf.rep_isRoot ha) (h.wf.rep_isRoot hb) hne hparent hinfo
  refine ⟨wf, fun {x} => ?_, fun {x y} hx hy => ?_, ?_, fun {r m} hm => ?_⟩
  · rw [takes.mem, h.known, bridge.keys]
  · rw [takes.mem] at hx hy
    rw [bridge.chains, ← h.connected hx hy, ← h.connected hx ha, ← h.connected hx hb, ← h.connected hy ha,
      ← h.connected hy hb, takes.rep_eq_iff hne hx hy]
  · rw [hinfo, Entries.map_fst_replace]
    exact h.distinct.sublist (filter_sublist.map _)
  · obtain ⟨hr, er⟩ := wf.isSome_infoOf?.1 (isSome_iff_exists.2 ⟨m, hm⟩)
    rw [takes.mem] at hr
    -- the class that was taken has lost its representative
    have hrb : p.rep r ≠ p.rep b := fun e => hne <| by
      rw [takes.rep hr, if_pos (by simpa using e)] at er
      rw [← h.wf.rep_rep ha, er, e]
    have err : p.rep r = r := by rwa [takes.rep hr, if_neg (by simpa using hrb)] at er
    rw [err] at hrb
    have hmr : q.classInfo? r = some m := by rw [classInfo?, er, hm]
    rw [takes.info hr, err] at hmr
    by_cases e : r = p.rep a
    · subst e
      rw [if_pos (by simp)] at hmr
      obtain rfl : (c.absorb i j).1 = m := some.inj hmr
      obtain ⟨ks, hks, sizea, hki⟩ := h.classes hi
      obtain ⟨ls, hls, sizeb, hlj⟩ := h.classes hj
      refine ⟨ks ++ ls, takes.members_taken hne hks hls, ?_, .absorb hki hlj⟩
      rw [hsize, Std.HashMap.getElem?_erase, if_neg (by simpa using hne.symm), Std.HashMap.getElem?_insert_self, hn, sizea, sizeb,
        length_append]
      rfl
    · rw [if_neg (by simp [e, hrb]), classInfo?, err] at hmr
      obtain ⟨ks, hks, size, absorbed⟩ := h.classes hmr
      refine ⟨ks, takes.members_other e hrb hks, ?_, absorbed⟩
      rw [hsize, Std.HashMap.getElem?_erase, if_neg (by simpa using hrb.symm), Std.HashMap.getElem?_insert,
        if_neg (by simpa using Ne.symm e), size]

/-! ## Calls -/

theorem find (k : κ) : Represents c (calls ++ [.find k]) (p.find k (c.fresh k)).1 := by
  unfold Partition.find
  split
  · rename_i hk
    refine (h.alike (h.wf.alike_compressed hk) (h.wf.compressed hk).1).congr (fun x => ?_) fun x y => Connected.concat_find
    rw [flatMap_append, mem_append]
    refine or_iff_left_of_imp fun hx => ?_
    obtain rfl : x = k := by simpa [Call.keys] using hx
    exact h.known.1 hk
  · rename_i hk
    exact h.added (fun h => hk (mem_iff_contains.1 h)) rfl rfl rfl

theorem lookup (k : κ) : Represents c (calls ++ [.lookup k]) (p.lookup k).1 := by
  have same : Represents c calls (p.lookup k).1 := by
    unfold Partition.lookup
    split
    · rename_i hk
      exact h.alike (h.wf.alike_compressed hk) (h.wf.compressed hk).1
    · exact h
  exact same.congr (fun x => by simp [Call.keys]) fun x y => Connected.congr fun a b => by simp

theorem found (a b : κ) : ∃ q₁ q i j, p.find a (c.fresh a) = (q₁, q.rep a, i) ∧ q₁.find b (c.fresh b) = (q, q.rep b, j) ∧ p.Extends q ∧ a ∈ q.parent ∧
    b ∈ q.parent ∧ q.infoOf? (q.rep a) = some i ∧ q.infoOf? (q.rep b) = some j ∧ Represents c (calls ++ [.find a] ++ [.find b]) q := by
  obtain ⟨q₁, i, e₁, wf₁, ext₁, mem₁, hi, -⟩ := h.wf.find a (c.fresh a)
  obtain ⟨q, j, e₂, -, ext₂, mem₂, hj, -⟩ := wf₁.find b (c.fresh b)
  have ha : a ∈ q₁.parent := (mem₁ a).2 (.inr rfl)
  refine ⟨q₁, q, i, j, by rw [e₁, ext₂.rep ha], e₂, ext₁.trans ext₂, ext₂.mem ha, (mem₂ b).2 (.inr rfl),
    (ext₂.classInfo? wf₁ ha).trans hi, hj, ?_⟩
  have := (h.find a).find b
  rwa [e₁, e₂] at this

/-- Both keys are found first; then their classes become one. -/
theorem union (a b : κ) : Represents c (calls ++ [.union a b]) (p.union a b (c.fresh a) (c.fresh b) c.absorb).partition := by
  obtain ⟨q₁, q, i, j, e₁, e₂, -, ha, hb, hi, hj, found⟩ := h.found a b
  have bridge : Bridges a b (calls ++ [.find a] ++ [.find b]) (calls ++ [.union a b]) :=
    ⟨fun x => by simp [Call.keys], by simp only [Connected.concat_union, Connected.concat_find, implies_true]⟩
  rw [Partition.union, e₁]
  dsimp only
  rw [e₂]
  dsimp only
  split
  · rename_i e
    exact found.joined bridge ha hb (eq_of_beq e)
  · rename_i hne
    have hne : q.rep a ≠ q.rep b := by simpa using hne
    split
    · exact found.linked bridge.symm hb ha hne.symm hj hi (Nat.add_comm _ _) rfl rfl rfl
    · exact found.linked bridge ha hb hne hi hj rfl rfl rfl rfl

/-- Merging two connected keys does not fail.  Otherwise one class is taken into the other one, whatever becomes of the
information. -/
theorem union_cases (a b : κ) : Connected calls a b ∧ (p.union a b (c.fresh a) (c.fresh b) c.absorb).failure = none ∨
    ¬ Connected calls a b ∧ ∃ q s t i j, p.Extends q ∧ (p.union a b (c.fresh a) (c.fresh b) c.absorb).failure = (c.absorb i j).2 ∧
      Takes s t (c.absorb i j).1 q (p.union a b (c.fresh a) (c.fresh b) c.absorb).partition ∧
      ∀ k, k ∈ q.parent → (q.rep k = s ∨ q.rep k = t ↔ Connected calls k a ∨ Connected calls k b) := by
  obtain ⟨q₁, q, i, j, e₁, e₂, ext, ha, hb, hi, hj, found⟩ := h.found a b
  have chains {k l : κ} (hk : k ∈ q.parent) (hl : l ∈ q.parent) : q.rep k = q.rep l ↔ Connected calls k l := by
    rw [found.connected hk hl, Connected.concat_find, Connected.concat_find]
  rw [Partition.union, e₁]
  dsimp only
  rw [e₂]
  dsimp only
  split
  · rename_i e
    exact .inl ⟨(chains ha hb).1 (eq_of_beq e), rfl⟩
  · rename_i hne
    have hne : q.rep a ≠ q.rep b := by simpa using hne
    have roota := found.wf.rep_isRoot ha
    have rootb := found.wf.rep_isRoot hb
    refine .inr ⟨fun hab => hne ((chains ha hb).2 hab), ?_⟩
    split
    · refine ⟨q, q.rep b, q.rep a, j, i, ext, rfl, (found.wf.linked rootb roota hne.symm rfl rfl).2, fun k hk => ?_⟩
      rw [chains hk ha, chains hk hb, or_comm]
    · refine ⟨q, q.rep a, q.rep b, i, j, ext, rfl, (found.wf.linked roota rootb hne rfl rfl).2, fun k hk => ?_⟩
      rw [chains hk ha, chains hk hb]

theorem step (x : Call κ) : Represents c (calls ++ [x]) (step c p x).1 := by
  cases x with
  | find k => exact h.find k
  | lookup k => exact h.lookup k
  | contains k => exact h.congr (fun x => by simp [Call.keys]) fun x y => Connected.congr fun a b => by simp
  | union a b => exact h.union a b

theorem run (more : List (Call κ)) : Represents c (calls ++ more) (run c p more) := by
  induction more generalizing calls p with
  | nil => rwa [append_nil]
  | cons x more ih =>
    have := ih (h.step x)
    rwa [append_assoc] at this

end

theorem empty : Represents c [] ({} : Partition κ ι) where
  wf := ⟨fun hk => by simp at hk, fun {r} => by simp [infoOf?]⟩
  known := by simp
  connected hk := by simp at hk
  distinct := nodup_nil
  classes hi := by simp [infoOf?] at hi

theorem mem_reps (h : Represents c calls p) : r ∈ p.info.map Prod.fst ↔ r ∈ p.parent ∧ p.rep r = r :=
  Entries.isSome_lookup.symm.trans h.wf.isSome_infoOf?

theorem length_eq_card (h : Represents c calls p) :
    p.length = Nat.card (Quot fun k l : { k // k ∈ calls.flatMap Call.keys } => Connected calls k l) := by
  have known {k : κ} (hk : k ∈ calls.flatMap Call.keys) : k ∈ p.parent := h.known.2 hk
  have isRep {k : κ} (hk : k ∈ p.parent) : p.rep k ∈ p.info.map Prod.fst := h.mem_reps.2 ⟨h.wf.rep_mem hk, h.wf.rep_rep hk⟩
  let classes : { r // r ∈ p.info.map Prod.fst } ≃ Quot fun k l : { k // k ∈ calls.flatMap Call.keys } => Connected calls k l :=
    { toFun r := .mk _ ⟨r.1, h.known.1 (h.mem_reps.1 r.2).1⟩
      invFun := Quot.lift (fun k => ⟨p.rep k.1, isRep (known k.2)⟩) fun k l hkl =>
        Subtype.ext ((h.connected (known k.2) (known l.2)).2 hkl)
      left_inv r := Subtype.ext (h.mem_reps.1 r.2).2
      right_inv := by
        rintro ⟨k⟩
        exact Quot.sound ((h.connected (h.wf.rep_mem (known k.2)) (known k.2)).1 (h.wf.rep_rep (known k.2))) }
  classical
  rw [← Nat.card_congr classes, ← Nat.card_congr (List.Nodup.getEquiv _ h.distinct), Nat.card_fin, length_map, length]

end Represents

/-! ## Runs -/

/-- **A partition stands for exactly the merges that were made.**  After any calls two known keys have one representative if
and only if merges connect them.  Entries go to the representatives, one to each, so that there are as many as there are
classes; the information of an entry is made of that of the members of its class, of each of them once, and the size that is
kept is their number.  Finding or looking up a known key answers with this information, and by the path that it compresses
nothing changes. -/
theorem represents_run (c : Content κ ι) (calls : List (Call κ)) :
    let p := run c {} calls
    (∀ k, k ∈ p.parent ↔ k ∈ calls.flatMap Call.keys) ∧
    (∀ k l, k ∈ p.parent → l ∈ p.parent → (p.rep k = p.rep l ↔ Connected calls k l)) ∧
    (p.info.map Prod.fst).Nodup ∧ (∀ r, r ∈ p.info.map Prod.fst ↔ r ∈ p.parent ∧ p.rep r = r) ∧
    (∀ r i, (r, i) ∈ p.info → ∃ ks, p.Members r ks ∧ p.size[r]? = some ks.length ∧ Absorbed c ks i) ∧
    p.length = Nat.card (Quot fun k l : { k // k ∈ calls.flatMap Call.keys } => Connected calls k l) ∧
    ∀ k, k ∈ p.parent → ∃ i, (p.rep k, i) ∈ p.info ∧ (p.find k (c.fresh k)).2 = (p.rep k, i) ∧ p.Alike (p.find k (c.fresh k)).1 ∧
      (p.lookup k).2 = some i ∧ p.Alike (p.lookup k).1 := by
  intro p
  have h : Represents c calls p := Represents.empty.run calls
  refine ⟨fun k => h.known, fun k l => h.connected, h.distinct, fun r => h.mem_reps,
    fun r i hi => h.classes (h.infoOf?_eq_some_iff.2 hi), h.length_eq_card, fun k hk => ?_⟩
  obtain ⟨i, hi⟩ := h.wf.exists_classInfo hk
  have alike := h.wf.alike_compressed hk
  have contains : p.contains k = true := mem_iff_contains.1 hk
  rw [classInfo?] at hi
  refine ⟨i, h.infoOf?_eq_some_iff.1 hi, ?_⟩
  rw [Partition.find, Partition.lookup, contains]
  simp only [if_true, hi, getD_some]
  exact ⟨trivial, alike, trivial, alike⟩

/-- Information that lists the keys. -/
def listing : Content Nat (List Nat) := ⟨fun k => [k], fun i j => (i ++ j, none)⟩

/-- Merges that leave one key alone. -/
def chain : List (Call Nat) := [.union 0 1, .find 2, .lookup 1, .union 3 1]

theorem represents_run_chain : (run listing {} chain).rep 0 = (run listing {} chain).rep 3 ∧
    (run listing {} chain).rep 0 ≠ (run listing {} chain).rep 2 ∧
    ∃ i ks, ((run listing {} chain).rep 0, i) ∈ (run listing {} chain).info ∧
      (run listing {} chain).Members ((run listing {} chain).rep 0) ks ∧ Absorbed listing ks i := by
  obtain ⟨known, connected, -, -, classes, -, found⟩ := represents_run listing chain
  have mem {k : Nat} (hk : k ∈ chain.flatMap Call.keys) : k ∈ (run listing {} chain).parent := (known k).2 hk
  have alone {k l : Nat} (h : Connected chain k l) : k = 2 ↔ l = 2 := by
    induction h with
    | rel a b h => simp [chain] at h; omega
    | refl k => exact .rfl
    | symm _ _ _ ih => exact ih.symm
    | trans _ _ _ _ _ ih ih' => exact ih.trans ih'
  refine ⟨(connected 0 3 (mem (by decide)) (mem (by decide))).2 ?_, fun e => ?_, ?_⟩
  · exact .trans (.rel 0 1 (by decide)) (.symm (.rel 3 1 (by decide)))
  · exact absurd (alone ((connected 0 2 (mem (by decide)) (mem (by decide))).1 e)) (by decide)
  · obtain ⟨i, hi, -⟩ := found 0 (mem (by decide))
    obtain ⟨ks, members, -, absorbed⟩ := classes _ i hi
    exact ⟨i, ks, hi, members, absorbed⟩

/-- **A merge that fails has been made.**  The two keys were apart; what is in one class afterwards is what a merge without
failure puts there.  Every key of the two classes then finds what the failed absorption has left.  Only the keys of other classes
find what they found before. -/
theorem union_failed (c : Content κ ι) (calls : List (Call κ)) (a b : κ) {f : Failure} (h : (step c (run c {} calls) (.union a b)).2 = some f) :
    let p := run c {} calls
    let q := (step c p (.union a b)).1
    ¬ Connected calls a b ∧
    (∀ k l, k ∈ q.parent → l ∈ q.parent → (q.rep k = q.rep l ↔ Connected (calls ++ [.union a b]) k l)) ∧
    (∃ i j, (c.absorb i j).2 = some f ∧ ∀ k, k ∈ q.parent → Connected calls k a ∨ Connected calls k b → q.classInfo? k = some (c.absorb i j).1) ∧
    ∀ k, k ∈ p.parent → ¬ (Connected calls k a ∨ Connected calls k b) → q.rep k = p.rep k ∧ q.classInfo? k = p.classInfo? k := by
  intro p q
  have rep : Represents c calls p := Represents.empty.run calls
  have h : (p.union a b (c.fresh a) (c.fresh b) c.absorb).failure = some f := h
  rcases rep.union_cases a b with ⟨-, e⟩ | ⟨apart, q', s, t, i, j, ext, e, takes, ends⟩
  · rw [e] at h
    cases h
  refine ⟨apart, fun k l => (rep.union a b).connected, ⟨i, j, e.symm.trans h, fun k hk hkab => ?_⟩, fun k hk hkab => ?_⟩
  · have hk' := takes.mem.1 hk
    exact (takes.info hk').trans (if_pos (by simpa using (ends k hk').2 hkab))
  · have hk' := ext.mem hk
    obtain ⟨hs, ht⟩ := not_or.1 ((ends k hk').not.2 hkab)
    refine ⟨(takes.rep hk').trans ?_, (takes.info hk').trans ?_⟩
    · rw [if_neg (by simpa using ht), ext.rep hk]
    · rw [if_neg (by simp [hs, ht]), ext.classInfo? rep.wf hk]

/-- Information that lists the keys, and is never absorbed without failure. -/
def refusing : Content Nat (List Nat) := ⟨fun k => [k], fun i j => (i ++ j, some (.plain "absorb failed"))⟩

/-- Two keys that nothing connects. -/
def singles : List (Call Nat) := [.find 0, .find 1]

theorem apart_singles : ¬ Connected singles 0 1 := by
  intro h
  have h : Connected ([.find 0] ++ [.find 1]) 0 1 := h
  have h : Connected ([] ++ [.find 0]) 0 1 := .concat_find.1 h
  have h : Connected [] 0 1 := Connected.concat_find.1 h
  exact absurd (h.eq_of_unknown (by simp)) (by decide)

theorem represents_singles : Represents refusing singles (run refusing {} singles) := Represents.empty.run singles

theorem failure_refusing : (step refusing (run refusing {} singles) (.union 0 1)).2 = some (.plain "absorb failed") := by
  rcases represents_singles.union_cases 0 1 with ⟨h, -⟩ | ⟨-, q, s, t, i, j, -, e, -, -⟩
  · exact absurd h apart_singles
  · exact e

theorem union_failed_refusing : (step refusing (run refusing {} singles) (.union 0 1)).2 = some (.plain "absorb failed") ∧
    ∃ i, ∀ k, k = 0 ∨ k = 1 → (step refusing (run refusing {} singles) (.union 0 1)).1.classInfo? k = some i := by
  obtain ⟨-, -, ⟨i, j, -, same⟩, -⟩ := union_failed refusing singles 0 1 failure_refusing
  refine ⟨failure_refusing, _, fun k hk => same k ((represents_singles.step (.union 0 1)).known.2 ?_) ?_⟩
  · rcases hk with rfl | rfl <;> decide
  · rcases hk with rfl | rfl
    · exact .inl (.refl 0)
    · exact .inr (.refl 1)

/-- A failure does not leave the classes as they were: two known keys are in one class that were in different ones. -/
theorem union_not_atomic : (step refusing (run refusing {} singles) (.union 0 1)).2 = some (.plain "absorb failed") ∧
    ¬ ∀ k l, k ∈ (run refusing {} singles).parent → l ∈ (run refusing {} singles).parent →
      ((step refusing (run refusing {} singles) (.union 0 1)).1.rep k = (step refusing (run refusing {} singles) (.union 0 1)).1.rep l ↔
        (run refusing {} singles).rep k = (run refusing {} singles).rep l) := by
  have before := represents_singles
  have after := before.step (.union 0 1)
  have hk : 0 ∈ (run refusing {} singles).parent := before.known.2 (by decide)
  have hl : 1 ∈ (run refusing {} singles).parent := before.known.2 (by decide)
  have joined := (after.connected (after.known.2 (by decide)) (after.known.2 (by decide))).2 (.rel 0 1 (by simp))
  exact ⟨failure_refusing, fun same => apart_singles ((before.connected hk hl).1 ((same 0 1 hk hl).1 joined))⟩

end FlowCompiler.Partition
