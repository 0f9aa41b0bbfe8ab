import FlowCompiler.Analysis.ClassDef
import FlowCompiler.Proofs.Union.Methods
import FlowCompiler.Proofs.Union.Order

/-!
# Choosing the methods of an instance

An attribute holds the methods that the classes of a hierarchy define under one name.  An instance has the method of
the nearest class on its way to the root.  Where only a class above that of an instance is known, the methods that the
instance may have are those that the lookup finds from the class and from its subclasses: the methods of proper
subclasses, and one more, the nearest at or above the class.  The filter finds them while it goes through the set once,
in whatever order the set comes.
-/

namespace FlowCompiler

open List
namespace World

variable {w : World} {c : ClassDefId} {ms : List MethodDesc} {m n : MethodDesc} {flags : List String}

/-! ## The lookup along the bases -/

/-- The method that an instance of a class has: that of the nearest class on the way to the root. -/
def chainLookup (w : World) (ms : List MethodDesc) (c : ClassDefId) : Option MethodDesc := (w.mro c).findSome? fun b => ms.find? fun m => m.origin = b

/-- No class has two of the methods. -/
def OnePerOrigin (ms : List MethodDesc) : Prop := ∀ m ∈ ms, ∀ n ∈ ms, m.origin = n.origin → m = n

/-- A method at or above a class to which all others at or above the class are no nearer. -/
structure Nearest (w : World) (ms : List MethodDesc) (c : ClassDefId) (m : MethodDesc) : Prop where
  mem : m ∈ ms
  above : m.origin ∈ w.mro c
  nearest : ∀ n ∈ ms, n.origin ∈ w.mro c → n.origin ∈ w.mro m.origin

theorem Nearest.unique (ho : w.Ordered) (h₁ : OnePerOrigin ms) (hm : Nearest w ms c m) (hn : Nearest w ms c n) : m = n :=
  h₁ m hm.mem n hn.mem (eq_of_mem_mro ho (hn.nearest m hm.mem hm.above) (hm.nearest n hn.mem hn.above))

theorem chainLookup_eq (ho : w.Ordered) (ms : List MethodDesc) (c : ClassDefId) :
    w.chainLookup ms c = (ms.find? fun m => m.origin = c).or ((w.classDef c).base.bind (w.chainLookup ms)) := by
  rw [chainLookup, mro_eq ho c, findSome?_cons]
  cases ms.find? fun m => m.origin = c with
  | some m => rfl
  | none => cases (w.classDef c).base <;> rfl

theorem chainLookup_eq_none (h : w.chainLookup ms c = none) (hm : m ∈ ms) : m.origin ∉ w.mro c := by
  intro hc
  have hnone := find?_eq_none.1 (findSome?_eq_none_iff.1 h _ hc) m hm
  simp at hnone

theorem nearest_of_chainLookup (ho : w.Ordered) (h : w.chainLookup ms c = some m) : Nearest w ms c m := by
  induction c using ho.induct with
  | step c ih =>
    rw [chainLookup_eq ho] at h
    cases hf : ms.find? fun m => m.origin = c with
    | some n =>
      -- a method of the class itself is nearer than all others
      rw [hf] at h
      cases h
      obtain rfl : m.origin = c := by simpa using find?_some hf
      exact ⟨mem_of_find?_eq_some hf, self_mem_mro _, fun _ _ hn => hn⟩
    | none =>
      rw [hf, Option.none_or] at h
      obtain ⟨b, hb, h⟩ := Option.bind_eq_some_iff.1 h
      obtain ⟨hmem, habove, hnear⟩ := ih b hb h
      refine ⟨hmem, (mem_mro_iff ho).2 (.inr ⟨b, hb, habove⟩), fun n hn hnc => ?_⟩
      rcases (mem_mro_iff ho).1 hnc with e | ⟨b', hb', hnb⟩
      · exact absurd e (by simpa using find?_eq_none.1 hf n hn)
      · cases hb.symm.trans hb'
        exact hnear n hn hnb

theorem chainLookup_eq_some_iff (ho : w.Ordered) (h₁ : OnePerOrigin ms) : w.chainLookup ms c = some m ↔ Nearest w ms c m := by
  refine ⟨nearest_of_chainLookup ho, fun hm => ?_⟩
  cases h : w.chainLookup ms c with
  | none => exact absurd hm.above (chainLookup_eq_none h hm.mem)
  | some n => rw [hm.unique ho h₁ (nearest_of_chainLookup ho h)]

/-! ## The methods that a class and its subclasses find -/

/-- Whether a class is a proper subclass of another one. -/
def ProperlyBelow (w : World) (d c : ClassDefId) : Prop := d ≠ c ∧ c ∈ w.mro d

instance (w : World) (d c : ClassDefId) : Decidable (w.ProperlyBelow d c) := inferInstanceAs (Decidable (_ ∧ _))

/-- A method bound to its class where that is a proper subclass of a class, and to the class otherwise. -/
def bindFor (w : World) (c : ClassDefId) (flags : List String) (m : MethodDesc) : MethodDesc :=
  { m with self := some (if w.ProperlyBelow m.origin c then m.origin else c), flags }

/-- The methods of proper subclasses. -/
def methodsBelow (w : World) (ms : List MethodDesc) (c : ClassDefId) : List MethodDesc := ms.filter fun m => w.ProperlyBelow m.origin c

theorem mem_methodsBelow : m ∈ w.methodsBelow ms c ↔ m ∈ ms ∧ w.ProperlyBelow m.origin c := by simp [methodsBelow]

theorem not_properlyBelow (ho : w.Ordered) (h : m.origin ∈ w.mro c) : ¬ w.ProperlyBelow m.origin c := fun ⟨hne, hc⟩ => hne (eq_of_mem_mro ho h hc)

theorem bindFor_of_below (h : w.ProperlyBelow m.origin c) : w.bindFor c flags m = { m with self := some m.origin, flags } := by
  rw [bindFor, if_pos h]

theorem bindFor_of_above (ho : w.Ordered) (h : m.origin ∈ w.mro c) : w.bindFor c flags m = { m with self := some c, flags } := by
  rw [bindFor, if_neg (not_properlyBelow ho h)]

/-- **A class and its subclasses find the methods of all proper subclasses, and one more, which the class finds.** -/
theorem exists_chainLookup_iff (ho : w.Ordered) (h₁ : OnePerOrigin ms) :
    (∃ d, c ∈ w.mro d ∧ w.chainLookup ms d = some m) ↔ m ∈ w.methodsBelow ms c ∨ w.chainLookup ms c = some m := by
  rw [mem_methodsBelow]
  constructor
  · rintro ⟨d, hd, hm⟩
    obtain ⟨hmem, habove, hnear⟩ := nearest_of_chainLookup ho hm
    rcases mem_mro_total ho habove hd with h | h
    · by_cases e : m.origin = c
      · refine .inr ((chainLookup_eq_some_iff ho h₁).2 ⟨hmem, e ▸ self_mem_mro _, fun n hn hnc => ?_⟩)
        exact hnear n hn (mem_mro_trans ho hd hnc)
      · exact .inl ⟨hmem, e, h⟩
    · exact .inr ((chainLookup_eq_some_iff ho h₁).2 ⟨hmem, h, fun n hn hnc => hnear n hn (mem_mro_trans ho hd hnc)⟩)
  · rintro (⟨hm, -, hc⟩ | hm)
    · exact ⟨m.origin, hc, (chainLookup_eq_some_iff ho h₁).2 ⟨hm, self_mem_mro _, fun _ _ hn => hn⟩⟩
    · exact ⟨c, self_mem_mro c, hm⟩

end World

variable {d : DescId}

namespace Ana

open World

variable {k : Knot} {w w' : World} {c : ClassDefId} {ds ids : List DescId} {ms : List MethodDesc} {m : MethodDesc}
  {flags : List String} {up : Option MethodDesc}

/-! ## Going through the set -/

/-- A method that is the nearest of those at or above a class, if there are any. -/
def IsNearest (w : World) (ms : List MethodDesc) (c : ClassDefId) : Option MethodDesc → Prop
  | some m => Nearest w ms c m
  | none => ∀ n ∈ ms, n.origin ∉ w.mro c

theorem IsNearest.eq_chainLookup (ho : w.Ordered) (h₁ : OnePerOrigin ms) (h : IsNearest w ms c up) : up = w.chainLookup ms c := by
  cases up with
  | some m => exact ((chainLookup_eq_some_iff ho h₁).2 h).symm
  | none =>
    cases hc : w.chainLookup ms c with
    | none => rfl
    | some n =>
      have hn := nearest_of_chainLookup ho hc
      exact absurd hn.above (h n hn.mem)

theorem IsNearest.skip (h : IsNearest w ms c up) (hm : m.origin ∉ w.mro c) : IsNearest w (ms ++ [m]) c up := by
  have hmem {n : MethodDesc} (hn : n ∈ ms ++ [m]) (hc : n.origin ∈ w.mro c) : n ∈ ms := by
    rcases mem_append.1 hn with hn | hn
    · exact hn
    · cases mem_singleton.1 hn
      exact absurd hc hm
  cases up with
  | some k => exact ⟨mem_append_left _ h.mem, h.above, fun n hn hc => h.nearest n (hmem hn hc) hc⟩
  | none => exact fun n hn hc => h n (hmem hn hc) hc

theorem IsNearest.take (h : IsNearest w ms c up) (hm : m.origin ∈ w.mro c) (hup : ∀ k ∈ up, k.origin ∈ w.mro m.origin)
    (ho : w.Ordered) : IsNearest w (ms ++ [m]) c (some m) := by
  refine ⟨mem_append_right _ mem_cons_self, hm, fun n hn hc => ?_⟩
  rcases mem_append.1 hn with hn | hn
  · cases up with
    | some k => exact mem_mro_trans ho (hup k rfl) (h.nearest n hn hc)
    | none => exact absurd hc (h n hn)
  · cases mem_singleton.1 hn
    exact self_mem_mro _

theorem IsNearest.keep {k : MethodDesc} (h : IsNearest w ms c (some k)) (hm : m.origin ∈ w.mro c) (hk : k.origin ∉ w.mro m.origin)
    (ho : w.Ordered) : IsNearest w (ms ++ [m]) c (some k) := by
  refine ⟨mem_append_left _ h.mem, h.above, fun n hn hc => ?_⟩
  rcases mem_append.1 hn with hn | hn
  · exact h.nearest n hn hc
  · cases mem_singleton.1 hn
    exact (mem_mro_total ho hm h.above).resolve_left hk

/-- All descriptions of a set are of methods that are bound to no instance. -/
def AllUnbound (w : World) (ds : List DescId) : Prop := ∀ d ∈ ds, ∃ m, w.methodOf? d = some m ∧ m.self = none

theorem desc_of_methodOf? (h : w.methodOf? d = some m) : w.desc d = .method m := by
  unfold methodOf? at h
  cases e : w.desc d with
  | method n =>
    rw [e] at h
    cases h
    rfl
  | _ =>
    rw [e] at h
    cases h

/-- A loop in which every step goes on and keeps to an invariant. -/
theorem forIn_ok {β γ : Type} {I : List γ → β → World → Prop} {g : γ → β → Ana (ForInStep β)} {xs : List γ}
    (h : ∀ pre, ∀ x ∈ xs, ∀ b w, I pre b w → ∃ b' w', g x b k w = .ok (.yield b') w' ∧ I (pre ++ [x]) b' w') (pre : List γ) (b : β)
    (hI : I pre b w) : ∃ b' w', forIn xs b g k w = .ok b' w' ∧ I (pre ++ xs) b' w' := by
  induction xs generalizing pre b w with
  | nil => exact ⟨b, w, rfl, by rwa [append_nil]⟩
  | cons x xs ih =>
    obtain ⟨b₁, w₁, h₁, hI₁⟩ := h pre x mem_cons_self b w hI
    obtain ⟨b₂, w₂, h₂, hI₂⟩ := ih (fun pre x hx => h pre x (mem_cons_of_mem _ hx)) (pre ++ [x]) b₁ hI₁
    refine ⟨b₂, w₂, ?_, by rwa [append_assoc, singleton_append] at hI₂⟩
    rw [forIn_cons, bind_of_ok h₁]
    exact h₂

/-- What the filter does with one member of the set. -/
def sift (w : World) (c : ClassDefId) (flags : List String) (d : DescId) (found : List DescId × Option MethodDesc) :
    Ana (ForInStep (List DescId × Option MethodDesc)) :=
  match w.desc d with
  | .method m =>
    if m.self.isSome then pure (.yield (found.1 ++ [d], found.2))
    else if m.origin ≠ c && w.isSubclass m.origin c then do
      let e ← methodDesc { m with self := some m.origin, flags }
      pure (.yield (found.1 ++ [e], found.2))
    else if w.isSubclass c m.origin then
      match found.2 with
      | some k => if w.isSubclass m.origin k.origin then pure (.yield (found.1, some m)) else pure (.yield found)
      | none => pure (.yield (found.1, some m))
    else pure (.yield found)
  | _ => pure (.yield (found.1 ++ [d], found.2))

/-- What has been found when a part of the set has been gone through. -/
structure Sifted (w : World) (c : ClassDefId) (flags : List String) (ps : List DescId) (found : List DescId × Option MethodDesc)
    (w' : World) : Prop where
  names : w.Names w'
  below : Described w' ((w.methodsBelow (methodsOf w ps) c).map (w.bindFor c flags)) found.1
  nearest : IsNearest w (methodsOf w ps) c found.2

theorem Described.later {w'' : World} (h : Described w' ms ids) (n : w'.Names w'') : Described w'' ms ids := .imp (fun _ _ hd => n.index hd) h

theorem Described.exists_method (h : Described w' ms ids) (hd : d ∈ ids) : ∃ m ∈ ms, w'.methodIndex[m]? = some d := by
  induction h with
  | nil => cases hd
  | cons h _ ih =>
    rcases mem_cons.1 hd with rfl | hd
    · exact ⟨_, mem_cons_self, h⟩
    · obtain ⟨m, hm, hi⟩ := ih hd
      exact ⟨m, mem_cons_of_mem _ hm, hi⟩

theorem methodsOf_concat (hd : w.methodOf? d = some m) : methodsOf w (ds ++ [d]) = methodsOf w ds ++ [m] := by
  simp [methodsOf, hd]

theorem methodsBelow_concat (ms : List MethodDesc) (m : MethodDesc) (c : ClassDefId) :
    w.methodsBelow (ms ++ [m]) c = w.methodsBelow ms c ++ if w.ProperlyBelow m.origin c then [m] else [] := by
  simp [methodsBelow, filter_append, filter_cons]

/-- Every member of the set is a method of a proper subclass, one at or above the class, or of another branch of the
hierarchy. -/
theorem sift_ok (ho : w.Ordered) (hw : w.MethodsIndexed) (hd : w.methodOf? d = some m) (hm : m.self = none)
    {found : List DescId × Option MethodDesc} (h : Sifted w c flags ds found w') :
    ∃ found' w'', sift w c flags d found k w' = .ok (.yield found') w'' ∧ Sifted w c flags (ds ++ [d]) found' w'' := by
  have hsift (b : List DescId × Option MethodDesc) : sift w c flags d b = if w.ProperlyBelow m.origin c then do
        let e ← methodDesc { m with self := some m.origin, flags }
        pure (.yield (b.1 ++ [e], b.2))
      else if m.origin ∈ w.mro c then
        match b.2 with
        | some k => if k.origin ∈ w.mro m.origin then pure (.yield (b.1, some m)) else pure (.yield b)
        | none => pure (.yield (b.1, some m))
      else pure (.yield b) := by
    simp [sift, desc_of_methodOf? hd, hm, isSubclass, ProperlyBelow]
  obtain ⟨out, up⟩ := found
  have hof : methodsOf w (ds ++ [d]) = methodsOf w ds ++ [m] := methodsOf_concat hd
  have hbelow := methodsBelow_concat (w := w) (methodsOf w ds) m c
  rw [hsift]
  by_cases hb : w.ProperlyBelow m.origin c
  · obtain ⟨e, w'', he, n, hi⟩ := methodDesc_ok (h.names.indexed hw) { m with self := some m.origin, flags } k
    refine ⟨(out ++ [e], up), w'', ?_, h.names.trans n, ?_, ?_⟩
    · rw [if_pos hb, bind_of_ok he]
      rfl
    · rw [hof, hbelow, if_pos hb, map_append]
      refine rel_append (h.below.later n) (.cons ?_ .nil)
      rwa [bindFor_of_below hb]
    · rw [hof]
      exact h.nearest.skip fun hc => not_properlyBelow ho hc hb
  · -- nothing new is bound
    have hsame {up' : Option MethodDesc} (hup : IsNearest w (methodsOf w ds ++ [m]) c up') : Sifted w c flags (ds ++ [d]) (out, up') w' := by
      refine ⟨h.names, ?_, hof ▸ hup⟩
      rw [hof, hbelow, if_neg hb, append_nil]
      exact h.below
    rw [if_neg hb]
    by_cases hc : m.origin ∈ w.mro c
    · rw [if_pos hc]
      cases up with
      | none => exact ⟨_, w', rfl, hsame (h.nearest.take hc (fun _ hk => by cases hk) ho)⟩
      | some n =>
        by_cases hn : n.origin ∈ w.mro m.origin
        · refine ⟨_, w', congrFun (congrFun (if_pos hn) k) w', hsame (h.nearest.take hc (fun _ hk => ?_) ho)⟩
          cases hk
          exact hn
        · exact ⟨_, w', congrFun (congrFun (if_neg hn) k) w', hsame (h.nearest.keep hc hn ho)⟩
    · rw [if_neg hc]
      exact ⟨_, w', rfl, hsame (h.nearest.skip hc)⟩

/-- The methods that a class and its subclasses find, bound to the class or to their own. -/
def selected (w : World) (ms : List MethodDesc) (c : ClassDefId) (flags : List String) : List MethodDesc :=
  (w.methodsBelow ms c ++ (w.chainLookup ms c).toList).map (w.bindFor c flags)

/-- A set of compile-time values, which may be empty. -/
def pbcOrNothing (ds : List DescId) (nullable : Bool) : Ana Annot :=
  if ds.isEmpty then pure (if nullable then .none else .impossible) else newPbc ds nullable

/-- The nearest method at or above the class comes last. -/
def withNearest (c : ClassDefId) (flags : List String) (nullable : Bool) : List DescId × Option MethodDesc → Ana Annot
  | (out, some m) => do
    let e ← methodDesc { m with self := some c, flags }
    pbcOrNothing (out ++ [e]) nullable
  | (out, none) => pbcOrNothing out nullable

theorem filterMethods_eq_sift (c : ClassDefId) (ds : List DescId) (nullable : Bool) (flags : List String) (k : Knot) (w : World) :
    filterMethods c ds nullable flags k w = (forIn ds ([], none) (sift w c flags) >>= withNearest c flags nullable) k w := by
  have hnothing (ds : List DescId) : (if (!ds.isEmpty) = true then newPbc ds nullable else pure (if nullable then .none else .impossible)) =
      pbcOrNothing ds nullable := by cases ds <;> rfl
  refine (bind_of_ok (m := get) rfl).trans ?_
  simp only [hnothing]
  refine congrFun (congrFun (bind_congr fun found => ?_) k) w
  obtain ⟨out, up⟩ := found
  cases up <;> rfl

theorem filterMethods_eq (ho : w.Ordered) (hw : w.MethodsIndexed) (hds : AllUnbound w ds) (h₁ : OnePerOrigin (methodsOf w ds)) (c : ClassDefId)
    (nullable : Bool) (flags : List String) (k : Knot) : ∃ out w', w.Names w' ∧ Described w' (selected w (methodsOf w ds) c flags) out ∧
      filterMethods c ds nullable flags k w = pbcOrNothing out nullable k w' := by
  obtain ⟨⟨out, up⟩, w₁, hloop, (hs : Sifted w c flags ds _ _)⟩ := forIn_ok (k := k) (I := Sifted w c flags) (g := sift w c flags)
    (fun ps d hd b w' hI => by
      obtain ⟨m, hm, hu⟩ := hds d hd
      exact sift_ok ho hw hm hu hI) [] ([], none) ⟨.refl w, .nil, fun n hn => by cases hn⟩
  have hup := hs.nearest.eq_chainLookup ho h₁
  have heq := (filterMethods_eq_sift c ds nullable flags k w).trans (bind_of_ok hloop)
  cases up with
  | none =>
    refine ⟨out, w₁, hs.names, ?_, heq⟩
    rw [selected, ← hup, Option.toList_none, append_nil]
    exact hs.below
  | some m =>
    obtain ⟨e, w₂, he, n, hi⟩ := methodDesc_ok (hs.names.indexed hw) { m with self := some c, flags } k
    refine ⟨out ++ [e], w₂, hs.names.trans n, ?_, heq.trans (bind_of_ok he)⟩
    rw [selected, ← hup, Option.toList_some, map_append]
    refine rel_append (hs.below.later n) (.cons ?_ .nil)
    rwa [bindFor_of_above ho hs.nearest.above]

/-! ## The set that is left -/

theorem methodsOf_of_described (hw : w.MethodsIndexed) (h : Described w ms ids) : methodsOf w ids = ms := by
  induction h with
  | nil => rfl
  | cons hd _ ih =>
    rw [methodsOf, filterMap_cons_some (hw.methodOf? hd)]
    exact congrArg (_ :: ·) ih

theorem mem_selected (ho : w.Ordered) (h₁ : OnePerOrigin ms) :
    m ∈ selected w ms c flags ↔ ∃ d n, c ∈ w.mro d ∧ w.chainLookup ms d = some n ∧ m = w.bindFor c flags n := by
  rw [selected, mem_map]
  constructor
  · rintro ⟨n, hn, rfl⟩
    rw [mem_append, Option.mem_toList] at hn
    obtain ⟨d, hd, hl⟩ := (exists_chainLookup_iff ho h₁).2 hn
    exact ⟨d, n, hd, hl, rfl⟩
  · rintro ⟨d, n, hd, hl, rfl⟩
    refine ⟨n, ?_, rfl⟩
    rw [mem_append, Option.mem_toList]
    exact (exists_chainLookup_iff ho h₁).1 ⟨d, hd, hl⟩

theorem flags_of_mem_selected (h : m ∈ selected w ms c flags) : m.flags = flags := by
  obtain ⟨n, -, rfl⟩ := mem_map.1 h
  rfl

theorem not_covers_of_mem_selected {n : MethodDesc} (hm : m ∈ selected w ms c flags) (hn : n ∈ selected w ms c flags) : ¬ Covers w' n m := by
  obtain ⟨m, -, rfl⟩ := mem_map.1 hm
  obtain ⟨n, -, rfl⟩ := mem_map.1 hn
  rintro ⟨-, horigin, -, b, b', hb, hb', hne, -⟩
  change n.origin = m.origin at horigin
  cases hb
  cases hb'
  rw [horigin] at hne
  exact hne rfl

theorem newPbc_selected (hw : w'.MethodsIndexed) (hf : flags.Pairwise (· < ·)) (h : Described w' (selected w ms c flags) ids)
    (nullable : Bool) (k : Knot) : ∃ rs w'', newPbc ids nullable k w' = .ok (.pbc rs nullable) w'' ∧ (ids ≠ [] → rs ≠ []) ∧
      (∀ d ∈ rs, (w''.methodOf? d).isSome) ∧ ∀ m, m ∈ methodsOf w'' rs ↔ m ∈ selected w ms c flags := by
  have hmem {m : MethodDesc} : m ∈ methodsOf w' ids ↔ m ∈ selected w ms c flags := by rw [methodsOf_of_described hw h]
  have hall : AllMethods w' ids := by
    intro d hd
    obtain ⟨m, hm, hi⟩ := h.exists_method hd
    refine ⟨(hw.found hi).1, m, hw.methodOf? hi, ?_⟩
    rwa [flags_of_mem_selected hm]
  obtain ⟨rs, w'', hok, n, hs⟩ := newPbc_simplified hw hall nullable k
  have hmem' {m : MethodDesc} : m ∈ methodsOf w'' rs ↔ m ∈ selected w ms c flags := by
    have hsame : methodsOf w'' ids = methodsOf w' ids := filterMap_congr fun d hd => hall.names hw n hd
    rw [hs.methods_left, hsame, ← hmem]
    exact widest_iff_of_same (fun m hm => flags_of_mem_selected (hmem.1 hm)) fun m hm n hn => not_covers_of_mem_selected (hmem.1 hm) (hmem.1 hn)
  refine ⟨rs, w'', hok, fun hne => ?_, fun d hd => ?_, fun m => hmem'⟩
  · obtain ⟨d, hd⟩ := exists_mem_of_ne_nil _ hne
    obtain ⟨m, hm, -⟩ := h.exists_method hd
    obtain ⟨e, he, -⟩ := mem_methodsOf.1 (hmem'.2 hm)
    exact ne_nil_of_mem he
  · obtain ⟨m, -, hi⟩ := hs.mem.1 hd
    rw [hs.indexed.methodOf? hi]
    rfl

theorem pbcOrNothing_selected (hw : w'.MethodsIndexed) (hf : flags.Pairwise (· < ·)) (h : Described w' (selected w ms c flags) ids)
    (nullable : Bool) (k : Knot) : ∃ rs w'', pbcOrNothing ids nullable k w' =
        .ok (if rs.isEmpty then (if nullable then .none else .impossible) else .pbc rs nullable) w'' ∧
      (∀ d ∈ rs, (w''.methodOf? d).isSome) ∧ ∀ m, m ∈ methodsOf w'' rs ↔ m ∈ selected w ms c flags := by
  by_cases hnil : ids = []
  · subst hnil
    exact ⟨[], w', rfl, fun d hd => (not_mem_nil hd).elim, fun m => by rw [← methodsOf_of_described hw h]⟩
  · obtain ⟨rs, w'', hok, hne, hrs, hmem⟩ := newPbc_selected hw hf h nullable k
    refine ⟨rs, w'', ?_, hrs, hmem⟩
    rw [pbcOrNothing, if_neg (by simpa using hnil), if_neg (by simpa using hne hnil)]
    exact hok

/-- **The filter finds exactly the methods that the lookup finds from a class and its subclasses.**  A class in a
hierarchy and a set of unbound methods, at most one of each class, give a set in which every method is one that the class
or a subclass finds on the way to the root: the one that the class itself finds is bound to the class, and those of
proper subclasses are bound to their own. -/
theorem filterMethods_exact (ho : w.Ordered) (hw : w.MethodsIndexed) (hds : AllUnbound w ds) (h₁ : OnePerOrigin (methodsOf w ds))
    (hf : flags.Pairwise (· < ·)) (c : ClassDefId) (nullable : Bool) (k : Knot) :
    ∃ rs w', filterMethods c ds nullable flags k w = .ok (if rs.isEmpty then (if nullable then .none else .impossible) else .pbc rs nullable) w' ∧
      (∀ d ∈ rs, (w'.methodOf? d).isSome) ∧
      (∀ m, m ∈ methodsOf w' rs ↔ ∃ d n, w.isSubclass d c ∧ w.chainLookup (methodsOf w ds) d = some n ∧ m = w.bindFor c flags n) ∧
      ∀ m, m ∈ methodsOf w' rs ↔ (∃ n, w.chainLookup (methodsOf w ds) c = some n ∧ m = { n with self := some c, flags }) ∨
        ∃ n ∈ methodsOf w ds, n.origin ≠ c ∧ w.isSubclass n.origin c ∧ m = { n with self := some n.origin, flags } := by
  obtain ⟨out, w₁, n, hd, heq⟩ := filterMethods_eq ho hw hds h₁ c nullable flags k
  have hshape (m : MethodDesc) : m ∈ selected w (methodsOf w ds) c flags ↔
      (∃ n, w.chainLookup (methodsOf w ds) c = some n ∧ m = { n with self := some c, flags }) ∨
      ∃ n ∈ methodsOf w ds, n.origin ≠ c ∧ w.isSubclass n.origin c ∧ m = { n with self := some n.origin, flags } := by
    rw [selected, mem_map]
    constructor
    · rintro ⟨n, hn, rfl⟩
      rw [mem_append, Option.mem_toList] at hn
      rcases hn with hn | hn
      · obtain ⟨hn, hb⟩ := mem_methodsBelow.1 hn
        exact .inr ⟨n, hn, hb.1, by simpa [isSubclass] using hb.2, bindFor_of_below hb⟩
      · exact .inl ⟨n, hn, bindFor_of_above ho (nearest_of_chainLookup ho hn).above⟩
    · rintro (⟨n, hn, rfl⟩ | ⟨n, hn, hne, hc, rfl⟩)
      · exact ⟨n, by simp [hn], bindFor_of_above ho (nearest_of_chainLookup ho hn).above⟩
      · have hb : w.ProperlyBelow n.origin c := ⟨hne, by simpa [isSubclass] using hc⟩
        exact ⟨n, mem_append_left _ (mem_methodsBelow.2 ⟨hn, hb⟩), bindFor_of_below hb⟩
  have hlookup (m : MethodDesc) : m ∈ selected w (methodsOf w ds) c flags ↔
      ∃ d n, w.isSubclass d c ∧ w.chainLookup (methodsOf w ds) d = some n ∧ m = w.bindFor c flags n := by
    simpa [isSubclass] using mem_selected ho h₁
  obtain ⟨rs, w', hok, hrs, hmem⟩ := pbcOrNothing_selected (n.indexed hw) hf hd nullable k
  exact ⟨rs, w', heq.trans hok, hrs, fun m => (hmem m).trans (hlookup m), fun m => (hmem m).trans (hshape m)⟩

/-- A method that has been defined on a class. -/
def unbound (c : ClassDefId) : MethodDesc := { func := 1, origin := c, self := none, name := "m" }

/-- A line of four classes and another subclass of the second one. -/
def lineage : World where
  classDefs := #[{ name := "A", key := "", desc := 1, base := none }, { name := "B", key := "", desc := 2, base := some 1 },
    { name := "C", key := "", desc := 3, base := some 2 }, { name := "D", key := "", desc := 4, base := some 3 },
    { name := "E", key := "", desc := 5, base := some 2 }]
  descs := #[.method (unbound 1), .method (unbound 2), .method (unbound 4), .method (unbound 5)]
  methodIndex := (((({} : Std.HashMap MethodDesc DescId).insert (unbound 1) 1).insert (unbound 2) 2).insert (unbound 4) 3).insert (unbound 5) 4

theorem methodsIndexed_lineage : lineage.MethodsIndexed := by
  have h (c d : ClassDefId) : (unbound c == unbound d) = (c == d) := by
    by_cases e : c = d <;> simp [e, unbound]
  have hempty : World.MethodsIndexed { classDefs := lineage.classDefs } := ⟨fun {m d} hd => by simp at hd, fun {m d} _ hd => by simp at hd⟩
  refine (((hempty.push (m := unbound 1) ?_ #[]).push (m := unbound 2) ?_ #[]).push (m := unbound 4) ?_ #[]).push (m := unbound 5) ?_ #[]
  all_goals simp [h]

/-- From the third class of the line the method of the second one is found and that of the fourth one, whichever comes
first: those of the first class and of the other branch are not. -/
theorem filterMethods_exact_lineage : ∃ rs w', filterMethods 3 [1, 4, 3, 2] false [] Annot.idle lineage = .ok (.pbc rs false) w' ∧
    ∀ m, m ∈ methodsOf w' rs ↔ m = { unbound 2 with self := some 3 } ∨ m = { unbound 4 with self := some 4 } := by
  have hor : lineage.Ordered := by
    intro c b h
    match c with
    | 0 | 1 => cases h
    | 2 | 3 | 4 | 5 =>
      cases h
      decide
    | c + 6 => cases h
  have hof : methodsOf lineage [1, 4, 3, 2] = [unbound 1, unbound 5, unbound 4, unbound 2] := rfl
  have hun : AllUnbound lineage [1, 4, 3, 2] := by
    intro d hd
    simp only [mem_cons, not_mem_nil, or_false] at hd
    rcases hd with rfl | rfl | rfl | rfl
    · exact ⟨unbound 1, rfl, rfl⟩
    · exact ⟨unbound 5, rfl, rfl⟩
    · exact ⟨unbound 4, rfl, rfl⟩
    · exact ⟨unbound 2, rfl, rfl⟩
  obtain ⟨rs, w', hok, -, -, hrs⟩ := filterMethods_exact hor methodsIndexed_lineage hun
    (by rw [hof]; unfold OnePerOrigin; decide) .nil 3 false Annot.idle
  have hmem (m : MethodDesc) : m ∈ methodsOf w' rs ↔ m = { unbound 2 with self := some 3 } ∨ m = { unbound 4 with self := some 4 } := by
    have hnear : lineage.chainLookup (methodsOf lineage [1, 4, 3, 2]) 3 = some (unbound 2) := by decide
    have hbelow : lineage.isSubclass 4 3 = true := rfl
    have h₁ : lineage.isSubclass 1 3 = false := rfl
    have h₂ : lineage.isSubclass 2 3 = false := rfl
    have h₅ : lineage.isSubclass 5 3 = false := rfl
    rw [hrs, hnear, hof]
    simp [unbound, hbelow, h₁, h₂, h₅]
  refine ⟨rs, w', ?_, hmem⟩
  rw [hok, if_neg]
  intro he
  have := (hmem _).2 (.inl rfl)
  rw [isEmpty_iff.1 he] at this
  cases this

end Ana
end FlowCompiler
