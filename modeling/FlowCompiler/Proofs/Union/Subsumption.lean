import FlowCompiler.Proofs.Union.Upper

/-!
# Sets of descriptions lose no callee

Simplifying a set of descriptions keeps whatever is not a method.  Of the methods it keeps the widest ones with the flags that all
of them have (`Reduced`), so that every method is served by one that is kept, and simplifying what is left changes nothing.
-/

namespace FlowCompiler.Ana

open World List Option

variable {w w' w'' : World} {ds rs rs' rs'' ids : List DescId} {d : DescId} {m n : MethodDesc}

/-- What is left of a set: all that is not a method, and the widest methods. -/
structure Reduced (w w' : World) (ds rs : List DescId) : Prop where
  names : w.Names w'
  made : ∀ d ∈ rs, 0 < d ∧ d ≤ w'.descs.size
  others : ∀ {d : DescId}, d ∈ rs ∧ w'.methodOf? d = none ↔ d ∈ ds ∧ w.methodOf? d = none
  methods : ∀ {m : MethodDesc}, m ∈ methodsOf w' rs ↔ Widest w (methodsOf w ds) m

theorem Reduced.of_few (hds : ∀ d ∈ ds, 0 < d ∧ d ≤ w.descs.size) (hlen : (methodsOf w ds).length < 2) : Reduced w w ds ds := by
  have single {m n : MethodDesc} (hm : m ∈ methodsOf w ds) (hn : n ∈ methodsOf w ds) : m = n := by
    rcases hms : methodsOf w ds with _ | ⟨_, _ | _⟩ <;> rw [hms] at hlen hm hn
    · cases hm
    · exact (mem_singleton.1 hm).trans (mem_singleton.1 hn).symm
    · simp only [length_cons] at hlen
      omega
  have flags {m : MethodDesc} (hm : m ∈ methodsOf w ds) : m.flags = commonFlags (methodsOf w ds) :=
    (commonFlags_of_same (ne_nil_of_mem hm) fun n hn => congrArg _ (single hn hm)).symm
  refine ⟨.refl w, hds, .rfl, fun {_} => (widest_iff_of_same (fun _ => flags) fun m hm n hn => ?_).symm⟩
  rw [single hm hn]
  exact not_covers_self

/-- What is kept of the methods with the flags in common, once these are described, are the widest ones. -/
theorem Reduced.of_described (hw : w.MethodsIndexed) (hds : ∀ d ∈ ds, 0 < d ∧ d ≤ w.descs.size) (names : w.Names w') (later : w.Later w')
    (hids : Described w' (levelled (methodsOf w ds)) ids) :
    Reduced w w' ds (ds.filter (fun d => (w.methodOf? d).isNone) ++ keptIds w' (levelled (methodsOf w ds)) ids) := by
  have hw' := names.indexed hw
  have old {d : DescId} (hd : d ∈ ds) : w'.methodOf? d = w.methodOf? d := by
    have found := Array.getElem?_eq_getElem (Nat.lt_of_lt_of_le (Nat.sub_lt (hds d hd).1 Nat.one_pos) (hds d hd).2)
    rw [methodOf?, methodOf?, later.desc found, World.desc, found]
    rfl
  have kept (d : DescId) : d ∈ keptIds w' (levelled (methodsOf w ds)) ids ↔ ∃ m, Widest w (methodsOf w ds) m ∧ w'.methodIndex[m]? = some d := by
    simp only [mem_keptIds hids, Widest, covers_congr names.classDefs, and_assoc]
  refine ⟨names, fun d hd => ?_, fun {d} => ?_, fun {m} => ?_⟩
  · rcases mem_append.1 hd with hd | hd
    · exact (hds d (mem_of_mem_filter hd)).imp_right fun h => h.trans later.descs.length_le
    · obtain ⟨m, -, hi⟩ := (kept d).1 hd
      have found := hw'.found hi
      exact ⟨found.1, Nat.le_of_pred_lt (Array.getElem?_eq_some_iff.1 found.2).1⟩
  · rw [mem_append, mem_filter, isNone_iff_eq_none, kept]
    refine ⟨fun h => h.1.resolve_right ?_, fun h => ⟨.inl h, (old h.1).trans h.2⟩⟩
    rintro ⟨m, -, hi⟩
    cases h.2.symm.trans (hw'.methodOf? hi)
  · rw [mem_methodsOf]
    constructor
    · rintro ⟨d, hd, hm⟩
      rcases mem_append.1 hd with hd | hd
      · obtain ⟨hd, none⟩ := mem_filter.1 hd
        cases hm.symm.trans ((old hd).trans (isNone_iff_eq_none.1 none))
      · obtain ⟨n, hn, hi⟩ := (kept d).1 hd
        cases hm.symm.trans (hw'.methodOf? hi)
        exact hn
    · intro hm
      obtain ⟨d, hd⟩ := hids.exists_of_mem hm.1
      exact ⟨d, mem_append_right _ ((kept d).2 ⟨m, hm, hd⟩), hw'.methodOf? hd⟩

theorem simplifyMethods_reduces (hw : w.MethodsIndexed) (hds : ∀ d ∈ ds, 0 < d ∧ d ≤ w.descs.size) (k : Knot) :
    ∃ rs w', simplifyMethods ds k w = .ok rs w' ∧ Reduced w w' ds rs := by
  by_cases hlen : (methodsOf w ds).length < 2
  · refine ⟨ds, w, ?_, .of_few hds hlen⟩
    change (if (methodsOf w ds).length < 2 then pure ds else _ : Ana (List DescId)) k w = _
    rw [if_pos hlen]
    rfl
  · obtain ⟨ids, w', hmap, names, hids⟩ := mapM_methodDesc_ok hw (levelled (methodsOf w ds)) k
    have he := simplifyMethods_eq hlen hmap
    exact ⟨_, w', he, .of_described hw hds names (Along.of_ok (R := World.Idle) _ he).toLater hids⟩

/-- Nothing more goes when what is left is simplified. -/
theorem Reduced.again (hw : w.MethodsIndexed) (h : Reduced w w' ds rs) (same : ∀ d, d ∈ rs' ↔ d ∈ rs) (h' : Reduced w' w'' rs' rs'') :
    d ∈ rs'' ↔ d ∈ rs := by
  have hw' := h.names.indexed hw
  have hw'' := h'.names.indexed hw'
  have methods (m : MethodDesc) : m ∈ methodsOf w'' rs'' ↔ m ∈ methodsOf w' rs := by
    have left {m : MethodDesc} : m ∈ methodsOf w' rs' ↔ Widest w (methodsOf w ds) m := by
      rw [← h.methods]
      simp only [mem_methodsOf, same]
    rw [h'.methods, h.methods, ← left]
    refine widest_iff_of_same (fun m hm => flags_of_mem_levelled (left.1 hm).1) fun m hm n hn => ?_
    rw [covers_congr h.names.classDefs]
    exact (left.1 hm).2 n (left.1 hn).1
  constructor
  · intro hd
    cases hm : w''.methodOf? d with
    | none => exact (same d).1 (h'.others.1 ⟨hd, hm⟩).1
    | some m =>
      obtain ⟨e, he, hme⟩ := mem_methodsOf.1 ((methods m).1 (mem_methodsOf.2 ⟨d, hd, hm⟩))
      have := h'.names.index (hw'.index (h.made e he).1 hme)
      rwa [← some.inj (this.symm.trans (hw''.index (h'.made d hd).1 hm))]
  · intro hd
    cases hm : w'.methodOf? d with
    | none => exact (h'.others.2 ⟨(same d).2 hd, hm⟩).1
    | some m =>
      obtain ⟨e, he, hme⟩ := mem_methodsOf.1 ((methods m).2 (mem_methodsOf.2 ⟨d, hd, hm⟩))
      have := h'.names.index (hw'.index (h.made d hd).1 hm)
      rwa [some.inj (this.symm.trans (hw''.index (h'.made e he).1 hme))]

/-- What a set of descriptions may be replaced by. -/
structure StandsFor (w w' : World) (rs ds : List DescId) : Prop where
  /-- Whatever is not a method is kept. -/
  others : ∀ d, d ∈ rs ∧ w'.methodOf? d = none ↔ d ∈ ds ∧ w.methodOf? d = none
  /-- A method is kept, or else one of the same function, origin and name with a wider class. -/
  served : ∀ m ∈ methodsOf w ds, ∃ n ∈ methodsOf w' rs, n = flagged n.flags m ∨ Covers w' n m
  members : ∀ n ∈ methodsOf w' rs, ∃ m ∈ methodsOf w ds, n = flagged n.flags m
  widest : ∀ m ∈ methodsOf w' rs, ∀ n ∈ methodsOf w' rs, ¬ Covers w' n m
  flags : ∀ n ∈ methodsOf w' rs, ∀ f, f ∈ n.flags ↔ ∀ m ∈ methodsOf w ds, f ∈ m.flags

theorem Reduced.standsFor (h : Reduced w w' ds rs) (ho : w.Ordered) : StandsFor w w' rs ds := by
  refine ⟨fun d => h.others, fun m hm => ?_, fun n hn => ?_, fun m hm n hn => ?_, fun n hn f => ?_⟩
  · obtain ⟨n, hn, hnm, hmax⟩ := exists_widest ho (mem_map_of_mem (f := flagged (commonFlags (methodsOf w ds))) hm)
    refine ⟨n, h.methods.2 ⟨hn, hmax⟩, hnm.imp (fun e => ?_) (covers_congr h.names.classDefs).2⟩
    rw [e]
    rfl
  · obtain ⟨m, hm, rfl⟩ := mem_map.1 (h.methods.1 hn).1
    exact ⟨m, hm, rfl⟩
  · rw [covers_congr h.names.classDefs]
    exact (h.methods.1 hm).2 n (h.methods.1 hn).1
  · obtain ⟨m, hm, -⟩ := mem_map.1 (h.methods.1 hn).1
    rw [flags_of_mem_levelled (h.methods.1 hn).1, mem_commonFlags (ne_nil_of_mem hm)]

/-- **No callee is lost when a set of descriptions is simplified.**  What is left is given by the members of the set alone, and
simplifying it once more, in any order, leaves the same. -/
theorem callees_kept (hw : w.MethodsIndexed) (ho : w.Ordered) (hds : ∀ d ∈ ds, 0 < d ∧ d ≤ w.descs.size) (k : Knot) :
    ∃ rs w', simplifyMethods ds k w = .ok rs w' ∧ StandsFor w w' rs ds ∧
      ∀ rs', (∀ d, d ∈ rs' ↔ d ∈ rs) → ∃ rs'' w'', simplifyMethods rs' k w' = .ok rs'' w'' ∧ ∀ d, d ∈ rs'' ↔ d ∈ rs := by
  obtain ⟨rs, w', e, h⟩ := simplifyMethods_reduces hw hds k
  refine ⟨rs, w', e, h.standsFor ho, fun rs' same => ?_⟩
  obtain ⟨rs'', w'', e', h'⟩ := simplifyMethods_reduces (h.names.indexed hw) (fun d hd => h.made d ((same d).1 hd)) k
  exact ⟨rs'', w'', e', fun d => h.again hw same h'⟩

/-- A function, and the methods of a class and of its base. -/
theorem callees_kept_siblings : ∃ rs w', simplifyMethods [2, 1, 4] Annot.idle Annot.amongMethods = .ok rs w' ∧
    StandsFor Annot.amongMethods w' rs [2, 1, 4] := by
  have described : ∀ d ∈ [2, 1, 4], 0 < d ∧ d ≤ Annot.amongMethods.descs.size := by decide
  obtain ⟨rs, w', e, h, -⟩ := callees_kept Annot.methodsIndexed_amongMethods Annot.methodScope.ordered described Annot.idle
  exact ⟨rs, w', e, h⟩

end FlowCompiler.Ana
