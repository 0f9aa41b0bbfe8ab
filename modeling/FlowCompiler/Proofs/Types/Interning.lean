import FlowCompiler.Proofs.Lookup
import FlowCompiler.Proofs.Types.Shapes

/-!
# The identity of types over a run

Types are made, forward references are resolved, and types are interned and looked up, in any order (`Catalog.run`).  The interner
remembers a type by the key that it had, and the key of a type changes when a forward reference in it is resolved.  What
keeps this coherent is that a key that mentions a forward reference which is resolved is no type's key any more: so an entry of the
interner either is up to date or is never found again (`Kept`).

Hence `identity_coherent`: at any time the types that are equal, and only those, share a representative, and that is one of them.
The representative of a type is the same until a forward reference that the type mentions is resolved.  Then it may be another
one (`identity_lost`), but the new one is equal to the old.  All this needs that no forward reference stands for another
one, for such types can differ from what they stand for.
-/

namespace FlowCompiler

namespace Types

variable {s s' : Types} {t r : LowType} {f g : NodeId} {k : String}

/-! ## Making types and resolving forward references -/

theorem NodeWithin.mono {n m : Nat} {k : TypeNode} (h : NodeWithin n k) (le : n ≤ m) : NodeWithin m k := by
  cases k with
  | struct name fields hints gc => exact ⟨h.1, fun x hx => ⟨(h.2 x hx).1, (h.2 x hx).2.mono le⟩⟩
  | array of bare imm gc => exact Within.mono h le
  | fixed of k => exact Within.mono h le
  | func args result => exact ⟨fun a ha => (h.1 a ha).mono le, h.2.mono le⟩
  | handle tag gc probe => exact h
  | weakref pointee => exact Nat.lt_of_lt_of_le h le
  | group name ms => exact ⟨h.1, fun m hm => Nat.lt_of_lt_of_le (h.2 m hm) le⟩
  | forward gc target => exact fun t ht => Nat.lt_of_lt_of_le (h t ht) le

theorem node_add (s : Types) (k : TypeNode) {id : NodeId} (h : id < s.nodes.size) : (s.add k).2.node id = s.node id := by
  simp [add, node, Array.getElem?_push, h.ne]

theorem node_add_self (s : Types) (k : TypeNode) : (s.add k).2.node s.nodes.size = k := by
  simp [add, node]

theorem resolved_set {gc : Bool} (hf : s.node f = .forward gc none) (inside : f < s.nodes.size) :
    Resolved s f g (s.set f (.forward gc (some g))) where
  pending := ⟨gc, hf, by simp [Types.set, node, inside]⟩
  size_eq := by simp [Types.set]
  node id h := by simp [Types.set, node, Ne.symm h]

theorem become_cases (h : s.become f g = .ok s') (inside : f < s.nodes.size) : s' = s ∨ Resolved s f g s' := by
  unfold become at h
  split at h
  · rename_i gc hf
    split at h
    · cases h
    · cases h
      exact .inr (resolved_set hf inside)
  · cases h
  · cases h
    exact .inl rfl

/-! ## What the interner remembers -/

/-- An entry of the interner: the key of its type, or one that mentions a forward reference that has been resolved. -/
def Kept (s : Types) (k : String) (r : LowType) : Prop :=
  Within s.nodes.size r ∧ ((s.resolve r = r ∧ s.Readable r ∧ k = s.key r) ∨ ∃ f gc g, .awaits f ∈ scan k.toList ∧ s.node f = .forward gc (some g))

theorem Later.resolved {gc : Bool} (later : Later s s') (h : s.node f = .forward gc (some g)) : s'.node f = .forward gc (some g) := by
  have inside : f < s.nodes.size := by
    by_contra outside
    rw [node_of_size_le (Nat.le_of_not_lt outside)] at h
    cases h
  rcases later.node f inside with e | ⟨gc', t, before, -⟩
  · rw [e, h]
  · rw [h] at before
    cases before

theorem Awaits.lt (h : s.Awaits t f) (hs : s.Closed) (ht : Within s.nodes.size t) : f < s.nodes.size := by
  induction h with
  | self _ => exact ht
  | part hu _ ih => exact ih (hs.part ht hu)

theorem Mentions.lt (h : s.Mentions t f) (hs : s.Closed) (ht : Within s.nodes.size t) : f < s.nodes.size := by
  rcases h with h | ⟨u, hu, h⟩
  · exact h.lt hs (hs.within_resolve ht)
  · exact h.lt hs (hs.within_spread hu)

/-- An entry stays up to date until a forward reference that it mentions is resolved, and is never found again afterwards. -/
theorem Kept.later (h : Kept s k r) (hs : s.Closed) (later : Later s s') : Kept s' k r := by
  refine ⟨h.1.mono later.size_le, ?_⟩
  rcases h.2 with ⟨resolved, readable, rfl⟩ | ⟨f, gc, g, hf, hg⟩
  · have signs : s.shape r = s.signs r := congrArg s.signs resolved
    by_cases same : ∀ i, s.Mentions r i → s'.node i = s.node i
    · obtain ⟨resolved', readable', shape⟩ := readable.later later hs h.1 same
      rw [resolved] at resolved'
      have signs' : s'.shape r = s'.signs r := congrArg s'.signs resolved'
      refine .inl ⟨resolved', readable', ?_⟩
      rw [← String.toList_inj, ← written_signs, ← written_signs, ← signs, ← signs', shape]
    · push Not at same
      obtain ⟨i, mention, changed⟩ := same
      refine .inr ?_
      rcases later.node i (mention.lt hs h.1) with e | ⟨gc, g, -, after⟩
      · exact absurd e changed
      · refine ⟨i, gc, g, ?_, after⟩
        rw [scan_key hs h.1, ← signs]
        exact mention.mem_shape readable
  · exact .inr ⟨f, gc, g, hf, later.resolved hg⟩

/-- The key of a type mentions no forward reference that is resolved. -/
theorem Kept.key_eq (h : Kept s (s.key (s.resolve t)) r) (hs : s.Closed) (ht : Within s.nodes.size t) :
    s.resolve r = r ∧ s.Readable r ∧ s.key (s.resolve t) = s.key r := by
  refine h.2.resolve_right ?_
  rintro ⟨f, gc, g, hf, hg⟩
  rw [scan_key hs (hs.within_resolve ht)] at hf
  obtain ⟨gc', open_⟩ := (mentions_of_mem_shape hf).isOpen
  rw [hg] at open_
  cases open_

end Types

open FlowCompiler.Types

/-! ## Runs -/

inductive Request where
  | construct (k : TypeNode)
  | become (f t : NodeId)
  | intern (t : LowType)
  | lookup (t : LowType)

structure Catalog where
  types : Types := {}
  interner : Interner := .initial

namespace Catalog

variable {c d : Catalog} {t u : LowType} {f g : NodeId} {q : Request} {qs : List Request}

/-- The representative of a type. -/
def represent (c : Catalog) (t : LowType) : LowType := (c.interner.intern c.types t).2

/-- What a request leaves; one that fails leaves everything. -/
def perform (c : Catalog) : Request → Catalog
  | .construct k => { c with types := (c.types.add k).2 }
  | .become f t =>
    match c.types.become f t with
    | .ok s => { c with types := s }
    | .error _ => c
  | .intern t => { c with interner := (c.interner.intern c.types t).1 }
  | .lookup _ => c

def run (c : Catalog) (qs : List Request) : Catalog := qs.foldl perform c

/-- A type among those that there are, with a key that ends. -/
def Has (c : Catalog) (t : LowType) : Prop := Within c.types.nodes.size t ∧ c.types.Readable t

/-- A request about types that there are.  A new forward reference is open, and none becomes another one. -/
def Allows (c : Catalog) : Request → Prop
  | .construct k => NodeWithin c.types.nodes.size k ∧ ∀ gc t, k ≠ .forward gc (some t)
  | .become f t => f < c.types.nodes.size ∧ t < c.types.nodes.size ∧ ∀ gc x, c.types.node t ≠ .forward gc x
  | .intern t | .lookup t => c.Has t

/-- Requests each of which is allowed when it is made. -/
def Proper (c : Catalog) : List Request → Prop
  | [] => True
  | q :: qs => c.Allows q ∧ (c.perform q).Proper qs

instance (n : Nat) (t : LowType) : Decidable (Within n t) :=
  match t with
  | .prim p => inferInstanceAs (Decidable (Innocent p.name))
  | .ptr id | .node id => inferInstanceAs (Decidable (id < n))

instance (n : Nat) (k : TypeNode) : Decidable (NodeWithin n k) :=
  match k with
  | .struct name fields _ _ => inferInstanceAs (Decidable (Innocent name ∧ ∀ f ∈ fields, Innocent f.1 ∧ Within n f.2))
  | .array of _ _ _ | .fixed of _ => inferInstanceAs (Decidable (Within n of))
  | .func args result => inferInstanceAs (Decidable ((∀ a ∈ args, Within n a) ∧ Within n result))
  | .handle tag _ _ => inferInstanceAs (Decidable (Innocent tag))
  | .weakref pointee => inferInstanceAs (Decidable (pointee < n))
  | .group name ms => inferInstanceAs (Decidable (Innocent name ∧ ∀ m ∈ ms, m < n))
  | .forward _ target => inferInstanceAs (Decidable (∀ t ∈ target, t < n))

instance (k : TypeNode) : Decidable (∀ gc t, k ≠ .forward gc (some t)) :=
  match k with
  | .forward gc (some t) => isFalse fun h => h gc t rfl
  | .forward _ none | .struct _ _ _ _ | .array _ _ _ _ | .fixed _ _ | .func _ _ | .handle _ _ _ | .weakref _ | .group _ _ =>
    isTrue fun _ _ => nofun

instance (k : TypeNode) : Decidable (∀ gc x, k ≠ .forward gc x) :=
  match k with
  | .forward gc x => isFalse fun h => h gc x rfl
  | .struct _ _ _ _ | .array _ _ _ _ | .fixed _ _ | .func _ _ | .handle _ _ _ | .weakref _ | .group _ _ => isTrue fun _ _ => nofun

instance (c : Catalog) (q : Request) : Decidable (c.Allows q) :=
  match q with
  | .construct k => inferInstanceAs (Decidable (_ ∧ ∀ gc t, k ≠ .forward gc (some t)))
  | .become _ t => inferInstanceAs (Decidable (_ ∧ _ ∧ ∀ gc x, c.types.node t ≠ .forward gc x))
  | .intern t | .lookup t => inferInstanceAs (Decidable (Within c.types.nodes.size t ∧ c.types.Readable t))

instance decidableProper : (c : Catalog) → (qs : List Request) → Decidable (c.Proper qs)
  | _, [] => isTrue trivial
  | c, q :: qs =>
    have := decidableProper (c.perform q) qs
    inferInstanceAs (Decidable (c.Allows q ∧ (c.perform q).Proper qs))

/-! ## What a request does to the types -/

theorem perform_become (c : Catalog) (g : NodeId) (inside : f < c.types.nodes.size) :
    c.perform (.become f g) = c ∨ ∃ s, Resolved c.types f g s ∧ c.perform (.become f g) = { c with types := s } := by
  rw [perform]
  split
  · rename_i s hs
    rcases become_cases hs inside with rfl | resolved
    · exact .inl rfl
    · exact .inr ⟨s, resolved, rfl⟩
  · exact .inl rfl

theorem later_perform (h : c.Allows q) : Later c.types (c.perform q).types := by
  cases q with
  | construct k => exact ⟨by simp [perform, add], fun id hid => .inl (node_add _ _ hid)⟩
  | become f g =>
    rcases perform_become c g h.1 with e | ⟨s, resolved, e⟩
    · rw [e]
      exact .refl _
    · rw [e]
      exact resolved.later
  | _ => exact .refl _

theorem closed_perform (h : c.Allows q) (hc : c.types.Closed) : (c.perform q).types.Closed := by
  cases q with
  | construct k =>
    have size : (c.perform (.construct k)).types.nodes.size = c.types.nodes.size + 1 := by simp [perform, add]
    intro id hid
    rw [size] at hid ⊢
    rcases Nat.lt_succ_iff_lt_or_eq.1 hid with hid | rfl
    · have kept := (hc id hid).mono (Nat.le_succ _)
      rwa [← node_add c.types k hid] at kept
    · have new := h.1.mono (Nat.le_succ _)
      rwa [← node_add_self c.types k] at new
  | become f g =>
    rcases perform_become c g h.1 with e | ⟨s, resolved, e⟩
    · rwa [e]
    · rw [e]
      intro id hid
      rw [resolved.size_eq] at hid ⊢
      by_cases e : id = f
      · obtain ⟨gc, -, after⟩ := resolved.pending
        rw [e, after]
        exact fun t ht => by
          cases ht
          exact h.2.1
      · rw [resolved.node id e]
        exact hc id hid
  | _ => exact hc

theorem direct_perform (h : c.Allows q) (hc : c.types.Closed) (direct : c.types.Direct) : (c.perform q).types.Direct := by
  cases q with
  | construct k =>
    intro f gc t hf gc' x ht
    rcases Nat.lt_trichotomy f c.types.nodes.size with inside | rfl | outside
    · have before : c.types.node f = .forward gc (some t) := (node_add c.types k inside).symm.trans hf
      have target : t < c.types.nodes.size := by
        have hf := hc f inside
        rw [before] at hf
        exact hf t rfl
      exact direct f gc t before gc' x ((node_add c.types k target).symm.trans ht)
    · exact h.2 gc t ((node_add_self c.types k).symm.trans hf)
    · have none : (c.perform (.construct k)).types.node f = .forward false none :=
        node_of_size_le (by simpa [perform, add] using Nat.succ_le_of_lt outside)
      rw [hf] at none
      cases none
  | become f g =>
    rcases perform_become c g h.1 with e | ⟨s, resolved, e⟩
    · rwa [e]
    · rw [e]
      obtain ⟨gc'', before, after⟩ := resolved.pending
      intro i gc t hi gc' x ht
      by_cases hif : i = f
      · subst hif
        rw [after] at hi
        cases hi
        by_cases self : g = i
        · exact h.2.2 _ _ (self ▸ before)
        · exact h.2.2 gc' x ((resolved.node g self).symm.trans ht)
      · have hi := (resolved.node i hif).symm.trans hi
        by_cases self : t = f
        · exact direct i gc t hi _ _ (self ▸ before)
        · exact direct i gc t hi gc' x ((resolved.node t self).symm.trans ht)
  | _ => exact direct

/-! ## Representatives -/

/-- What holds at every time of a proper run. -/
structure Tidy (c : Catalog) : Prop where
  closed : c.types.Closed
  direct : c.types.Direct
  entries : ∀ e ∈ c.interner.entries, Kept c.types e.1 e.2

theorem intern_entries (c : Catalog) (t : LowType) : ∃ new, (c.perform (.intern t)).interner.entries = c.interner.entries ++ new ∧
      (∀ e ∈ new, e = (c.types.key (c.types.resolve t), c.types.resolve t)) ∧
      (c.perform (.intern t)).interner.entries.lookup (c.types.key (c.types.resolve t)) = some (c.represent t) := by
  rw [perform, represent, Interner.intern]
  cases e : c.interner.entries.lookup (c.types.key (c.types.resolve t)) with
  | some r => exact ⟨[], (List.append_nil _).symm, by simp, e⟩
  | none => exact ⟨[_], rfl, by simp, by simp [List.lookup_append, e]⟩

variable {r : LowType}

theorem represent_of_lookup (h : c.interner.entries.lookup (c.types.key (c.types.resolve t)) = some r) : c.represent t = r := by
  rw [represent, Interner.intern, h]

theorem tidy_initial : Tidy {} where
  closed := fun id hid => absurd hid (Nat.not_lt_zero id)
  direct := fun f gc t hf => by simp [node] at hf
  entries := by
    have each : ∀ e ∈ LowType.named, ∃ p : Primitive, e = (p.name, .prim p) ∧ Innocent p.name := by
      intro e he
      simp only [LowType.named, List.mem_cons, List.not_mem_nil, or_false] at he
      rcases he with rfl | rfl | rfl | rfl | rfl | rfl | rfl | rfl | rfl | rfl | rfl | rfl <;>
        exact ⟨_, Prod.ext_iff.2 ⟨rfl, rfl⟩, by decide⟩
    intro e he
    obtain ⟨x, hx, rfl⟩ := List.mem_map.1 he
    obtain ⟨p, rfl, innocent⟩ := each x hx
    exact ⟨innocent, .inl ⟨rfl, ⟨1, ends_prim _ p, by simp [resolve, spread]⟩, rfl⟩⟩

theorem tidy_perform (h : c.Allows q) (hc : Tidy c) : Tidy (c.perform q) where
  closed := closed_perform h hc.closed
  direct := direct_perform h hc.closed hc.direct
  entries := by
    have old : ∀ e ∈ c.interner.entries, Kept (c.perform q).types e.1 e.2 := fun e he => (hc.entries e he).later hc.closed (later_perform h)
    cases q with
    | construct k => exact old
    | become f g =>
      rcases perform_become c g h.1 with e | ⟨s, -, e⟩
      · rw [e] at old ⊢
        exact old
      · rw [e] at old ⊢
        exact old
    | lookup t => exact old
    | intern t =>
      obtain ⟨new, entries, only, -⟩ := intern_entries c t
      rw [entries]
      intro e he
      rcases List.mem_append.1 he with he | he
      · exact old e he
      · have again := hc.direct.resolve_resolve t
        rw [only e he]
        refine ⟨hc.closed.within_resolve h.1, .inl ⟨again, ?_, rfl⟩⟩
        have readable := h.2
        rwa [Readable, ← again] at readable

theorem tidy_run (h : c.Proper qs) (hc : Tidy c) : Tidy (c.run qs) := by
  induction qs generalizing c with
  | nil => exact hc
  | cons q qs ih => exact ih h.2 (tidy_perform h.1 hc)

theorem later_run (h : c.Proper qs) : Later c.types (c.run qs).types := by
  induction qs generalizing c with
  | nil => exact .refl _
  | cons q qs ih => exact (later_perform h.1).trans (ih h.2)

theorem lookup_perform {k : String} (hr : c.interner.entries.lookup k = some r) : (c.perform q).interner.entries.lookup k = some r := by
  cases q with
  | become f g =>
    rw [perform]
    split <;> exact hr
  | intern t =>
    obtain ⟨new, entries, -⟩ := intern_entries c t
    rw [entries, List.lookup_append, hr]
    rfl
  | _ => exact hr

theorem lookup_run {k : String} (hr : c.interner.entries.lookup k = some r) : (c.run qs).interner.entries.lookup k = some r := by
  induction qs generalizing c with
  | nil => exact hr
  | cons q qs ih => exact ih (lookup_perform hr)

/-- The representative of a type is up to date and has its key. -/
theorem Tidy.represent (hc : Tidy c) (ht : c.Has t) : c.Has (c.represent t) ∧ c.types.equal (c.represent t) t = true := by
  have tidy : Tidy (c.perform (.intern t)) := tidy_perform ht hc
  obtain ⟨new, -, -, found⟩ := intern_entries c t
  have kept : Kept c.types (c.types.key (c.types.resolve t)) (c.represent t) := tidy.entries _ (Entries.mem_of_lookup found)
  obtain ⟨resolved, readable, key⟩ := kept.key_eq hc.closed ht.1
  exact ⟨⟨kept.1, readable⟩, equal_eq_true_iff.2 (by rw [resolved, key])⟩

/-- Equal types stay so, and either the keys of both end or those of neither. -/
theorem equal_perform (hc : Tidy c) (h : c.Allows q) (ht : c.Has t) (hu : c.Has u) (same : c.types.equal t u = true)
    (readable : (c.perform q).types.Readable t) : (c.perform q).Has u ∧ (c.perform q).types.equal t u = true := by
  have shapes := (equal_iff hc.closed ht.1 hu.1).1 same
  have later := later_perform h
  have conclude (readable' : (c.perform q).types.Readable u) (shapes' : (c.perform q).types.shape t = (c.perform q).types.shape u) :
      (c.perform q).Has u ∧ (c.perform q).types.equal t u = true :=
    ⟨⟨hu.1.mono later.size_le, readable'⟩, (equal_iff (closed_perform h hc.closed) (ht.1.mono later.size_le) (hu.1.mono later.size_le)).2 shapes'⟩
  cases q with
  | construct k =>
    have kept {v : LowType} (hv : c.Has v) := hv.2.later later hc.closed hv.1 fun i hi => node_add _ _ (hi.lt hc.closed hv.1)
    exact conclude (kept hu).2.1 (by rw [(kept ht).2.2, (kept hu).2.2, shapes])
  | become f g =>
    rcases perform_become c g h.1 with e | ⟨s, resolved, e⟩
    · exact conclude (by rw [e]; exact hu.2) (by rw [e]; exact shapes)
    · rw [e] at readable conclude ⊢
      have readable' := resolved.readable_of_shape hc.direct readable hu.2 shapes
      exact conclude readable' (resolved.shape_congr hc.direct readable readable' shapes)
  | _ => exact conclude hu.2 shapes

theorem equal_run (hc : Tidy c) (h : c.Proper qs) (ht : c.Has t) (hu : c.Has u) (same : c.types.equal t u = true)
    (readable : (c.run qs).types.Readable t) : (c.run qs).types.equal t u = true := by
  induction qs generalizing c with
  | nil => exact same
  | cons q qs ih =>
    have readable' : (c.perform q).types.Readable t := (later_run h.2).readable readable
    obtain ⟨hu', same'⟩ := equal_perform hc h.1 ht hu same readable'
    exact ih (tidy_perform h.1 hc) h.2 ⟨ht.1.mono (later_perform h.1).size_le, readable'⟩ hu' same' readable

/-! ## Coherence -/

/-- A catalog some time after a type was interned. -/
def After (c : Catalog) (t : LowType) (d : Catalog) : Prop := ∃ qs, (c.perform (.intern t)).Proper qs ∧ d = (c.perform (.intern t)).run qs

/-- What one can rely on when types are compared and interned. -/
structure Coherent (c : Catalog) : Prop where
  equivalence : Equivalence fun t u => c.types.equal t u = true
  forwarded : ∀ f gc t, c.types.node f = .forward gc (some t) → c.types.equal (.node f) (.node t) = true
  represented : ∀ t, c.Has t → c.types.equal (c.represent t) t = true
  shared : ∀ t u, c.Has t → c.Has u → ((c.perform (.intern t)).represent u = c.represent t ↔ c.types.equal t u = true)
  /-- Whatever is asked for later, the representative stays until a forward reference is resolved that the type mentions. -/
  lasting : ∀ t d, c.Has t → c.After t d → (∀ i, c.types.Mentions t i → d.types.node i = c.types.node i) →
    d.interner.lookup d.types t = some (c.represent t) ∧ d.represent t = c.represent t
  /-- And it is equal to the type, and to the representative that the type has then. -/
  succeeded : ∀ t d, c.Has t → c.After t d → d.types.Readable t →
    d.types.equal (c.represent t) t = true ∧ d.types.equal (d.represent t) (c.represent t) = true

theorem Tidy.coherent (hc : Tidy c) : Coherent c where
  equivalence := equal_equivalence c.types
  forwarded f gc t hf := by
    have first : c.types.resolve (.node f) = .node t := by simp [resolve, target, hf]
    have again := hc.direct.resolve_resolve (.node f)
    rw [first] at again
    exact equal_eq_true_iff.2 (by rw [first, again])
  represented t ht := (hc.represent ht).2
  shared t u ht hu := by
    have tidy : Tidy (c.perform (.intern t)) := tidy_perform ht hc
    constructor
    · intro e
      have same := (tidy.represent (t := u) hu).2
      rw [e] at same
      exact (equal_equivalence c.types).trans ((equal_equivalence c.types).symm (hc.represent ht).2) same
    · intro same
      obtain ⟨-, -, -, found⟩ := intern_entries c t
      rw [equal_eq_true_iff] at same
      exact represent_of_lookup (same ▸ found)
  lasting t d ht after same := by
    obtain ⟨qs, h, rfl⟩ := after
    have later : Later c.types ((c.perform (.intern t)).run qs).types := later_run h
    obtain ⟨-, -, shape⟩ := ht.2.later later hc.closed ht.1 same
    obtain ⟨-, -, -, found⟩ := intern_entries c t
    have key : ((c.perform (.intern t)).run qs).types.key (((c.perform (.intern t)).run qs).types.resolve t) = c.types.key (c.types.resolve t) := by
      rw [← String.toList_inj, ← written_signs, ← written_signs]
      exact congrArg written shape
    have found' : ((c.perform (.intern t)).run qs).interner.entries.lookup (c.types.key (c.types.resolve t)) =
        some (c.represent t) := lookup_run found
    rw [← key] at found'
    exact ⟨found', represent_of_lookup found'⟩
  succeeded t d ht after readable := by
    obtain ⟨qs, h, rfl⟩ := after
    have tidy : Tidy (c.perform (.intern t)) := tidy_perform ht hc
    obtain ⟨has, equal⟩ := hc.represent ht
    have old := equal_run tidy h ht has ((equal_equivalence c.types).symm equal) readable
    have new := (tidy_run h tidy).represent (t := t) ⟨ht.1.mono (later_run h).size_le, readable⟩
    have equivalence := equal_equivalence ((c.perform (.intern t)).run qs).types
    exact ⟨equivalence.symm old, equivalence.trans new.2 old⟩

/-- **Types keep their identity.**  After every proper sequence of requests equality is an equivalence, a resolved forward reference
is equal to what it became, a type is equal to its representative, and the types that are equal are those that share one.  The
representative stays the same until a forward reference that the type mentions is resolved, and is equal to the later ones. -/
theorem identity_coherent (h : Proper {} qs) : Coherent (run {} qs) := (tidy_run h tidy_initial).coherent

/-- An open forward reference and two arrays of it, the first of which is interned. -/
def arrays : List Request :=
  [.construct (.forward false none), .construct (.struct "S" [("x", .signed)] {} false), .construct (.array (.node 0) false false false),
    .construct (.array (.node 0) false false false), .intern (.node 2)]

theorem identity_coherent_arrays : Proper {} (arrays ++ [.become 0 1, .intern (.node 3)]) ∧
    Coherent (run {} (arrays ++ [.become 0 1, .intern (.node 3)])) := by
  have proper : Proper {} (arrays ++ [.become 0 1, .intern (.node 3)]) := by decide +kernel
  exact ⟨proper, identity_coherent proper⟩

/-- A forward reference that becomes another one, which becomes a structure. -/
def chained : List Request :=
  [.construct (.forward false none), .construct (.forward false none), .construct (.struct "S" [("x", .signed)] {} false), .become 0 1, .become 1 2]

/-- **Where identity is lost.**  A forward reference that stands for another one is not equal to the structure that both stand for, and
the representative of a type is another one after a forward reference that the type mentions is resolved. -/
theorem identity_lost : ((run {} chained).types.resolve (.node 0) = .node 1 ∧ (run {} chained).types.resolve (.node 1) = .node 2 ∧
      (run {} chained).types.equal (.node 0) (.node 2) = false) ∧
    (run {} (arrays ++ [.intern (.node 3)])).represent (.node 3) = .node 2 ∧
    (run {} (arrays ++ [.intern (.node 3), .become 0 1])).represent (.node 3) = .node 3 := by
  decide +kernel

end Catalog
end FlowCompiler
