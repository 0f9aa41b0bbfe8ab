import FlowCompiler.Analysis.Call
import FlowCompiler.Proofs.Union.Upper

/-!
# Unions of equal annotations

The union of two annotations that are equal is equal to them, and making it changes nothing but tags and host objects.  So
a binding stays when an operation is analysed again whose operands have not changed.

Types are the exception.  The type of some variables gets a tag when it is made, and a union keeps the variables only if
both sides have one tag, though equality does not look at tags.  So it is supposed that there is one type of each list of
variables; where an operation is analysed again and makes a second one, the union forgets the variables.
-/

namespace FlowCompiler

open List

/-- The same state, but for tags and host objects. -/
structure World.Alike (w w' : World) : Prop where
  classDefs : w'.classDefs = w.classDefs
  descs : w'.descs = w.descs
  methodIndex : w'.methodIndex = w.methodIndex
  listDefs : w'.listDefs = w.listDefs
  dictDefs : w'.dictDefs = w.dictDefs
  progress : w'.progress = w.progress

namespace World.Alike

variable {w w' w'' : World}

theorem refl (w : World) : w.Alike w := ⟨rfl, rfl, rfl, rfl, rfl, rfl⟩

theorem trans (h : w.Alike w') (h' : w'.Alike w'') : w.Alike w'' :=
  ⟨h'.classDefs.trans h.classDefs, h'.descs.trans h.descs, h'.methodIndex.trans h.methodIndex, h'.listDefs.trans h.listDefs,
    h'.dictDefs.trans h.dictDefs, h'.progress.trans h.progress⟩

theorem ordered (h : w.Alike w') (ho : w.Ordered) : w'.Ordered := ho.congr h.classDefs

mutual

theorem equal (h : w.Alike w') : (a b : Annot) → w'.equal a b = w.equal a b
  | .tuple _ _ xs, b => by
    cases b
    case tuple ys => exact h.itemsEqual xs ys
    all_goals rfl
  | .iter c v, b => by
    cases b
    case iter c' v' => exact congrArg (v == v' && ·) (h.equal c c')
    all_goals rfl
  | .method x s, b => by
    cases b
    case method y s' => exact congrArg (x == y && ·) (h.equal s s')
    all_goals rfl
  | .bool c fs, b => by
    cases b
    case bool c' gs => exact congrArg (c == c' && fs.length == gs.length && ·) (h.factsEqual fs gs)
    all_goals rfl
  | .list d, b => by
    cases b
    case list e => simp only [World.equal, listItemId, h.listDefs]
    all_goals rfl
  | .dict d, b => by
    cases b
    case dict e => simp only [World.equal, dictDef, h.dictDefs]
    all_goals rfl
  | .object, b | .impossible, b | .none, b | .int _, b | .char _ _, b | .unichar _ _, b | .str _ _ _, b | .unicode _ _ _, b
  | .inst _ _ _, b | .pbc _ _, b | .builtin _, b | .type _ _ _, b | .weakref _, b => by cases b <;> rfl
  | .float c _, b => by
    cases b
    case float c' _ => cases c <;> cases c' <;> rfl
    all_goals cases c <;> rfl

theorem itemsEqual (h : w.Alike w') : (xs ys : List Annot) → w'.itemsEqual xs ys = w.itemsEqual xs ys
  | [], ys => by cases ys <;> rfl
  | x :: xs, ys => by
    cases ys with
    | nil => rfl
    | cons y ys => rw [World.itemsEqual, World.itemsEqual, h.equal x y, h.itemsEqual xs ys]

theorem factsEqual (h : w.Alike w') : (fs gs : List (Fact Annot)) → w'.factsEqual fs gs = w.factsEqual fs gs
  | [], _ => rfl
  | ⟨o, v, a⟩ :: fs, gs => by
    rw [World.factsEqual, World.factsEqual, h.factsEqual fs gs]
    cases Annot.findFact? gs o v with
    | none => rfl
    | some b => exact congrArg (· && w.factsEqual fs gs) (h.equal a b)

end

end World.Alike

namespace Ana

/-! ## Steps that only add tags and host objects -/

/-- A step that succeeds and leaves everything but tags and host objects as it is. -/
def Adds {α : Type} (m : Ana α) : Prop := ∀ k w, ∃ a w', m k w = .ok a w' ∧ w.Alike w'

namespace Adds

variable {α β : Type}

theorem pure (a : α) : Adds (.pure a : Ana α) := fun _ w => ⟨a, w, rfl, .refl w⟩

theorem get : Adds (MonadState.get : Ana World) := fun _ w => ⟨w, w, rfl, .refl w⟩

theorem modifyGet {f : World → α × World} (h : ∀ w : World, w.Alike (f w).2) : Adds (MonadState.modifyGet f : Ana α) :=
  fun _ w => ⟨(f w).1, (f w).2, rfl, h w⟩

theorem bind {m : Ana α} {f : α → Ana β} (hm : Adds m) (hf : ∀ a, Adds (f a)) : Adds (m >>= f) := by
  intro k w
  obtain ⟨a, w₁, h₁, s₁⟩ := hm k w
  obtain ⟨b, w₂, h₂, s₂⟩ := hf a k w₁
  exact ⟨b, w₂, (bind_of_ok h₁).trans h₂, s₁.trans s₂⟩

theorem mapM (xs : List α) {f : α → Ana β} (h : ∀ x, Adds (f x)) : Adds (xs.mapM f) := by
  induction xs with
  | nil => exact pure _
  | cons x xs ih =>
    rw [mapM_cons]
    exact bind (h x) fun _ => bind ih fun _ => pure _

theorem addObject (o : HostObject) : Adds (.addObject o) := modifyGet fun _ => ⟨rfl, rfl, rfl, rfl, rfl, rfl⟩

theorem constOf (a : Annot) : Adds (.constOf a) := by
  have described (d : DescId) : Adds (valueOfDesc d) := by
    refine bind get fun w => ?_
    split
    case h_5 =>
      split
      · exact bind (addObject _) fun _ => pure _
      · exact pure _
    all_goals exact pure _
  unfold Ana.constOf
  split
  all_goals first | exact described _ | exact pure _

theorem freshTag : Adds .freshTag := modifyGet fun _ => ⟨rfl, rfl, rfl, rfl, rfl, rfl⟩

end Adds

theorem newTuple_ok (xs : List Annot) (k : Knot) (w : World) : ∃ t o w', newTuple xs k w = .ok (.tuple t o xs) w' ∧ w.Alike w' := by
  obtain ⟨t, w₁, h₁, s₁⟩ := Adds.freshTag k w
  unfold newTuple
  rw [bind_of_ok h₁]
  split
  · obtain ⟨cs, w₂, h₂, s₂⟩ := Adds.mapM xs .constOf k w₁
    obtain ⟨o, w₃, h₃, s₃⟩ := Adds.addObject (.consts cs) k w₂
    rw [bind_of_ok h₂, bind_of_ok h₃]
    exact ⟨t, some o, w₃, rfl, s₁.trans (s₂.trans s₃)⟩
  · exact ⟨t, none, w₁, rfl, s₁⟩

/-- What is done to every element, where each of the steps succeeds. -/
theorem mapM_alike {α β : Type} (xs : List α) {f : α → Ana β} {P : α → β → Prop} {k : Knot} {w : World}
    (h : ∀ x ∈ xs, ∀ v, w.Alike v → ∃ r v', f x k v = .ok r v' ∧ v.Alike v' ∧ P x r) :
    ∃ rs w', xs.mapM f k w = .ok rs w' ∧ w.Alike w' ∧ List.Forall₂ P xs rs := by
  induction xs generalizing w with
  | nil => exact ⟨[], w, rfl, .refl w, .nil⟩
  | cons x xs ih =>
    obtain ⟨r, w₁, h₁, s₁, p⟩ := h x mem_cons_self w (.refl w)
    obtain ⟨rs, w₂, h₂, s₂, ps⟩ := ih (w := w₁) fun y hy v hv => h y (mem_cons_of_mem _ hy) v (s₁.trans hv)
    refine ⟨r :: rs, w₂, ?_, s₁.trans s₂, .cons p ps⟩
    rw [mapM_cons, bind_of_ok h₁, bind_of_ok h₂]
    rfl

end Ana

/-! ## Sets of descriptions as they are made -/

open Ana

/-- Methods that have been simplified: they have the same flags, none covers another one, and each is found by what it is. -/
structure World.Level (w : World) (ds : List DescId) : Prop where
  flags : ∀ m ∈ methodsOf w ds, ∀ n ∈ methodsOf w ds, m.flags = n.flags
  apart : ∀ m ∈ methodsOf w ds, ∀ n ∈ methodsOf w ds, ¬ Covers w n m
  found : ∀ d ∈ ds, ∀ m ∈ w.methodOf? d, w.methodIndex[m]? = some d

/-- A set of descriptions as it is made: its methods have been simplified if one comes first. -/
structure World.Settled (w : World) (ds : List DescId) : Prop where
  sorted : ds.Pairwise (· < ·)
  level : (∃ d ∈ ds.head?, (w.methodOf? d).isSome = true) → w.Level ds

namespace World

variable {w w' : World} {ds : List DescId} {k : Knot}

theorem Alike.methodOf? (s : w.Alike w') (d : DescId) : w'.methodOf? d = w.methodOf? d := by
  rw [World.methodOf?, World.methodOf?, desc, desc, s.descs]

theorem Alike.methodsOf (s : w.Alike w') (ds : List DescId) : Ana.methodsOf w' ds = Ana.methodsOf w ds := filterMap_congr fun d _ => s.methodOf? d

theorem Alike.covers (s : w.Alike w') {m n : MethodDesc} (h : Covers w' n m) : Covers w n m := by
  obtain ⟨hf, ho, hn, c, c', hc, hc', hne, hmem⟩ := h
  have hmro : w'.mro c = w.mro c := mro_congr (by rw [s.classDefs]) (by simp [classDef, s.classDefs]) c
  exact ⟨hf, ho, hn, c, c', hc, hc', hne, hmro ▸ hmem⟩

theorem Level.alike (h : w.Level ds) (s : w.Alike w') : w'.Level ds where
  flags := by
    rw [s.methodsOf]
    exact h.flags
  apart := by
    rw [s.methodsOf]
    exact fun m hm n hn hc => h.apart m hm n hn (s.covers hc)
  found d hd m hm := by
    rw [s.methodIndex]
    exact h.found d hd m (s.methodOf? d ▸ hm)

theorem Settled.alike (h : w.Settled ds) (s : w.Alike w') : w'.Settled ds where
  sorted := h.sorted
  level := by
    simp only [s.methodOf?]
    exact fun hm => (h.level hm).alike s

theorem Level.levelled_eq (h : w.Level ds) : levelled (Ana.methodsOf w ds) = Ana.methodsOf w ds := by
  refine (map_congr_left fun m hm => ?_).trans (map_id _)
  have hcommon : commonFlags (Ana.methodsOf w ds) = m.flags := by
    have hflags := h.flags m hm
    cases hms : Ana.methodsOf w ds with
    | nil => simp [hms] at hm
    | cons n ms =>
      rw [hms] at hflags
      have hall : ∀ f ∈ n.flags, (ms.all fun l => l.flags.contains f) = true := fun f hf =>
        all_eq_true.2 fun l hl => by
          have hl := hflags l (mem_cons_of_mem _ hl)
          simpa [← hl, hflags n mem_cons_self] using hf
      exact (filter_eq_self.2 hall).trans (hflags n mem_cons_self).symm
  rw [hcommon, flagged_self, id]

theorem Level.described (h : w.Level ds) : Ana.Described w (Ana.methodsOf w ds) (ds.filter fun d => (w.methodOf? d).isSome) := by
  have hfound := h.found
  clear h
  induction ds with
  | nil => exact .nil
  | cons d ds ih =>
    have ih := ih fun e he => hfound e (mem_cons_of_mem _ he)
    cases hd : w.methodOf? d with
    | none =>
      rw [Ana.methodsOf, filterMap_cons_none hd, filter_cons_of_neg (by simp [hd])]
      exact ih
    | some m =>
      rw [Ana.methodsOf, filterMap_cons_some hd, filter_cons_of_pos (by simp [hd])]
      exact .cons (hfound d mem_cons_self m hd) ih

/-- Nothing is dropped of methods that have been simplified. -/
theorem Level.simplify (h : w.Level ds) (hs : ds.Pairwise (· < ·)) (k : Knot) : ∃ rs, simplifyMethods ds k w = .ok rs w ∧ sortDescs rs = ds := by
  by_cases hlen : (Ana.methodsOf w ds).length < 2
  · refine ⟨ds, ?_, Annot.sortDescs_eq hs⟩
    change (if (Ana.methodsOf w ds).length < 2 then pure ds else _ : Ana (List DescId)) k w = _
    rw [if_pos hlen]
    rfl
  · have hids := h.described
    have hmap := mapM_methodDesc_of_described (k := k) hids
    rw [← h.levelled_eq] at hmap
    refine ⟨_, simplifyMethods_eq hlen hmap, (Annot.sortDescs_congr fun d => ?_).trans (Annot.sortDescs_eq hs)⟩
    rw [h.levelled_eq, mem_append, mem_filter, mem_keptIds hids]
    constructor
    · rintro (hd | ⟨m, hm, -, hd⟩)
      · exact hd.1
      · obtain ⟨e, he, hem⟩ := mem_filterMap.1 hm
        cases (h.found e he m hem).symm.trans hd
        exact he
    · intro hd
      cases hm : w.methodOf? d with
      | none => exact .inl ⟨hd, rfl⟩
      | some m =>
        have hmem : m ∈ Ana.methodsOf w ds := mem_filterMap.2 ⟨d, hd, hm⟩
        exact .inr ⟨m, hmem, h.apart m hmem, h.found d hd m hm⟩

/-- **A set as it is made stays** when it is made once more. -/
theorem Settled.newPbc_self (h : w.Settled ds) (b : Bool) (k : Knot) : newPbc (ds ++ ds) b k w = .ok (.pbc ds b) w := by
  have hsort : sortDescs (ds ++ ds) = ds := (Annot.sortDescs_congr fun d => by simp).trans (Annot.sortDescs_eq h.sorted)
  match ds with
  | [] | [_] =>
    rw [newPbc_of_short b (by rw [hsort]; simp), hsort]
  | d :: e :: rest =>
    rw [newPbc_of_pair b hsort]
    cases hm : w.methodOf? d with
    | none => rfl
    | some m =>
      obtain ⟨rs, hrs, hsame⟩ := (h.level ⟨d, rfl, by simp [hm]⟩).simplify h.sorted k
      dsimp only
      rw [bind_of_ok hrs, hsame]
      rfl

end World

variable {u : Annot → Annot → Ana Annot} {fs : List (Fact Annot)} {xs : List Annot} {gs : List (Fact Annot)} {ys : List Annot}

namespace Annot

variable {w w' : World} {made : List VarId → Nat} {n : Nat} {a b : Annot} {k : Knot}

/-! ## Annotations as they are made -/

/-- An annotation of at most so many levels, as it is made: integers have the range that goes with their flags, a double that is
not equal to itself has a tag, a variable has one fact for each outcome, sets of descriptions have been simplified, and
there is one type of each list of variables, which `made` gives the tag of. -/
inductive Steady (w : World) (made : List VarId → Nat) : Nat → Annot → Prop
  | object {n : Nat} : Steady w made (n + 1) object
  | impossible {n : Nat} : Steady w made (n + 1) impossible
  | none {n : Nat} : Steady w made (n + 1) none
  | bool {n : Nat} (c : Option Bool) {fs : List (Fact Annot)} (keys : fs.Pairwise fun f g => ¬ (f.outcome = g.outcome ∧ f.var = g.var))
    (h : ∀ f ∈ fs, Steady w made n f.value) : Steady w made (n + 1) (bool c fs)
  | int {n : Nat} {i : IntFact} (h : i.Proper) : Steady w made (n + 1) (int i)
  | float {n : Nat} {c : Option Double} {t : Nat} (h : ∀ x ∈ c, t = 0 → x.numEq x = true) : Steady w made (n + 1) (float c t)
  | char {n : Nat} (c : Option UInt8) (z : Bool) : Steady w made (n + 1) (char c z)
  | unichar {n : Nat} (c : Option Int) (z : Bool) : Steady w made (n + 1) (unichar c z)
  | str {n : Nat} (c : Option String) (m z : Bool) : Steady w made (n + 1) (str c m z)
  | unicode {n : Nat} (c : Option String) (m z : Bool) : Steady w made (n + 1) (unicode c m z)
  | tuple {n : Nat} (t : Nat) (o : Option ObjId) {xs : List Annot} (h : ∀ x ∈ xs, Steady w made n x) : Steady w made (n + 1) (tuple t o xs)
  | list {n : Nat} (d : ListDefId) : Steady w made (n + 1) (list d)
  | dict {n : Nat} (d : DictDefId) : Steady w made (n + 1) (dict d)
  | inst {n : Nat} (c : Option ClassDefId) (m : Bool) (fs : List String) : Steady w made (n + 1) (inst c m fs)
  | pbc {n : Nat} {ds : List DescId} (m : Bool) (h : w.Settled ds) : Steady w made (n + 1) (pbc ds m)
  | iter {n : Nat} {c : Annot} (v : String) (h : Steady w made n c) : Steady w made (n + 1) (iter c v)
  | builtin {n : Nat} (x : String) : Steady w made (n + 1) (builtin x)
  | method {n : Nat} (x : String) {s : Annot} (h : Steady w made n s) : Steady w made (n + 1) (method x s)
  | type {n : Nat} {c : Option Datum} {vs : List VarId} {t : Nat} (h : ∀ d ∈ c, d.same d = true)
    (one : vs ≠ [] → t = made vs ∧ t ≠ 0) : Steady w made (n + 1) (type c vs t)
  | weakref {n : Nat} (c : Option ClassDefId) : Steady w made (n + 1) (weakref c)

theorem Steady.alike (h : Steady w made n a) (s : w.Alike w') : Steady w' made n a := by
  induction h with
  | bool c keys _ ih => exact .bool c keys ih
  | tuple t o _ ih => exact .tuple t o ih
  | iter v _ ih => exact .iter v ih
  | method x _ ih => exact .method x ih
  | pbc m h => exact .pbc m (h.alike s)
  | _ => constructor <;> assumption

/-! ## Items and facts -/

theorem itemsEqual_iff : w.itemsEqual xs ys = true ↔ List.Forall₂ (fun x y => w.equal x y = true) xs ys := by
  induction xs generalizing ys with
  | nil => cases ys <;> simp [World.itemsEqual]
  | cons x xs ih => cases ys <;> simp [World.itemsEqual, ih]

theorem factsEqual_iff : w.factsEqual fs gs = true ↔ ∀ f ∈ fs, ∃ b, findFact? gs f.outcome f.var = some b ∧ w.equal f.value b = true := by
  induction fs with
  | nil => simp [World.factsEqual]
  | cons f fs ih =>
    rw [World.factsEqual, Bool.and_eq_true, ih, forall_mem_cons]
    refine and_congr_left fun _ => ?_
    cases findFact? gs f.outcome f.var <;> simp

theorem mem_of_findFact? {o : Bool} {v : VarId} (h : findFact? gs o v = some b) : ∃ g ∈ gs, g.value = b := by
  obtain ⟨g, hg, rfl⟩ := Option.map_eq_some_iff.1 h
  exact ⟨g, mem_of_find?_eq_some hg, rfl⟩

theorem findFact?_of_mem (keys : fs.Pairwise fun f g => ¬ (f.outcome = g.outcome ∧ f.var = g.var))
    {f : Fact Annot} (hf : f ∈ fs) : findFact? fs f.outcome f.var = some f.value := by
  induction keys with
  | nil => cases hf
  | @cons g fs hg _ ih =>
    rcases mem_cons.1 hf with rfl | hf
    · simp [findFact?]
    · have hne : ¬ (g.outcome = f.outcome ∧ g.var = f.var) := hg f hf
      rw [← ih hf, findFact?, findFact?, List.find?_cons_of_neg (by simpa using hne)]

theorem Steady.equal_self (h : Steady w made n a) : w.equal a a = true := by
  induction h with
  | bool c keys _ ih =>
    simp only [World.equal, beq_self_eq_true, Bool.true_and, factsEqual_iff]
    exact fun f hf => ⟨f.value, findFact?_of_mem keys hf, ih f hf⟩
  | tuple t o _ ih => exact itemsEqual_iff.2 (List.forall₂_same.2 ih)
  | iter v _ ih => simpa [World.equal] using ih
  | method x _ ih => simpa [World.equal] using ih
  | @float n c t h => cases c <;> simp [World.equal]
  | @type n c vs t h one =>
    cases c with
    | none => simp [World.equal]
    | some d => simpa [World.equal] using h d rfl
  | _ => simp [World.equal]

/-! ## Unions -/

theorem mergeFacts_eq (u : Annot → Annot → Ana Annot) (fs gs : List (Fact Annot)) :
    mergeFacts u fs gs = (fs.mapM fun f => (findFact? gs f.outcome f.var).elim (pure .none) fun b =>
      tryCatch (do pure (some { f with value := ← u f.value b })) fun _ => pure .none) >>= fun rs => pure (rs.filterMap id) := by
  unfold mergeFacts
  congr 2
  funext f
  cases findFact? gs f.outcome f.var <;> rfl

theorem mergeFacts_of_equal {n : Nat} (hf : ∀ f ∈ fs, Steady w made n f.value) (hg : ∀ g ∈ gs, Steady w made n g.value)
    (he : w.factsEqual fs gs = true) (hu : ∀ a b v, w.Alike v → Steady v made n a → Steady v made n b → v.equal a b = true →
      ∃ r v', u a b k v = .ok r v' ∧ v.Alike v' ∧ v'.equal r a = true) :
    ∃ rs w', mergeFacts u fs gs k w = .ok rs w' ∧ w.Alike w' ∧ rs.length = fs.length ∧
      ∀ r ∈ rs, ∃ f ∈ fs, r.outcome = f.outcome ∧ r.var = f.var ∧ w.equal r.value f.value = true := by
  obtain ⟨os, w', h, s, each⟩ := mapM_alike fs (k := k) (w := w) (f := fun f => (findFact? gs f.outcome f.var).elim (pure .none) fun b =>
      tryCatch (do pure (some { f with value := ← u f.value b })) fun _ => pure .none)
    (P := fun f o => ∃ r, o = some r ∧ r.outcome = f.outcome ∧ r.var = f.var ∧ w.equal r.value f.value = true)
    fun f hmem v hv => by
      obtain ⟨b, hb, heq⟩ := factsEqual_iff.1 he f hmem
      obtain ⟨g, hgs, rfl⟩ := mem_of_findFact? hb
      obtain ⟨r, v', hr, s, he'⟩ := hu f.value g.value v hv ((hf f hmem).alike hv) ((hg g hgs).alike hv) ((hv.equal _ _).trans heq)
      refine ⟨some { f with value := r }, v', ?_, s, _, rfl, rfl, rfl, ?_⟩
      · rw [hb]
        exact tryCatch_of_ok ((bind_of_ok hr).trans rfl)
      · rwa [s.equal, hv.equal] at he'
  refine ⟨os.filterMap id, w', ?_, s, ?_⟩
  · rw [mergeFacts_eq, bind_of_ok h]
    rfl
  clear h hf he
  induction each with
  | nil => exact ⟨rfl, forall_mem_nil _⟩
  | @cons f _ fs os hr _ ih =>
    obtain ⟨r, rfl, hr⟩ := hr
    refine ⟨congrArg (· + 1) ih.1, forall_mem_cons.2 ⟨⟨f, mem_cons_self, hr⟩, fun r' hr' => ?_⟩⟩
    obtain ⟨f', hf', h'⟩ := ih.2 r' hr'
    exact ⟨f', mem_cons_of_mem _ hf', h'⟩

theorem mapM_of_equal (hx : ∀ x ∈ xs, Steady w made n x) (hy : ∀ y ∈ ys, Steady w made n y) (he : w.itemsEqual xs ys = true)
    (hu : ∀ a b v, w.Alike v → Steady v made n a → Steady v made n b → v.equal a b = true →
      ∃ r v', u a b k v = .ok r v' ∧ v.Alike v' ∧ v'.equal r a = true) :
    ∃ rs w', (xs.zip ys).mapM (fun p => u p.1 p.2) k w = .ok rs w' ∧ w.Alike w' ∧ w.itemsEqual rs xs = true := by
  have hxy := itemsEqual_iff.1 he
  obtain ⟨rs, w', hrs, s, each⟩ := mapM_alike (xs.zip ys) (k := k) (w := w) (f := fun p => u p.1 p.2)
    (P := fun p r => w.equal r p.1 = true) fun p hp v hv => by
      have hp' : w.equal p.1 p.2 = true := (List.forall₂_iff_zip.1 hxy).2 hp
      obtain ⟨h₁, h₂⟩ := of_mem_zip hp
      obtain ⟨r, v', hr, s, hself⟩ := hu p.1 p.2 v hv ((hx _ h₁).alike hv) ((hy _ h₂).alike hv) ((hv.equal _ _).trans hp')
      exact ⟨r, v', hr, s, by rwa [s.equal, hv.equal] at hself⟩
  refine ⟨rs, w', hrs, s, ?_⟩
  have hfst : (xs.zip ys).map Prod.fst = xs := map_fst_zip (Nat.le_of_eq hxy.length_eq)
  rw [itemsEqual_iff, ← hfst]
  exact (List.forall₂_map_left_iff.2 each).flip

theorem eq_float_of_equal {c : Option Double} {t : Nat} (h : w.equal (float c t) b = true) : ∃ c' t', b = float c' t' := by
  cases b
  case float c' t' => exact ⟨c', t', rfl⟩
  all_goals cases c <;> exact Bool.noConfusion (show false = true from h)

theorem join_float_of_equal {c c' : Option Double} {t t' : Nat} (h : ∀ x ∈ c, t = 0 → x.numEq x = true)
    (he : w.equal (float c t) (float c' t') = true) : w.equal (join w (float c t) (float c' t')) (float c t) = true := by
  rw [join_float]
  rcases c with - | x <;> rcases c' with - | y
  · rfl
  · exact Bool.noConfusion (show false = true from he)
  · exact Bool.noConfusion (show false = true from he)
  · have heq : (t = t' ∧ x = y) ∨ x.numEq y = true := by simpa [World.equal] using he
    have hsame : (x.numEq y || (t == t' && decide (t ≠ 0))) = true := by
      rcases heq with ⟨rfl, rfl⟩ | hnum
      · by_cases h0 : t = 0
        · simp [h x rfl h0]
        · simp [h0]
      · simp [hnum]
    simp only [if_pos hsame]
    simp [World.equal]

/-- Types of the same variables are one type. -/
theorem join_type_of_equal {c c' : Option Datum} {vs vs' : List VarId} {t t' : Nat} (h : ∀ d ∈ c, d.same d = true)
    (one : vs ≠ [] → t = made vs ∧ t ≠ 0) (one' : vs' ≠ [] → t' = made vs' ∧ t' ≠ 0)
    (he : w.equal (type c vs t) (type c' vs' t') = true) : w.equal (join w (type c vs t) (type c' vs' t')) (type c vs t) = true := by
  simp only [World.equal, Bool.and_eq_true, beq_iff_eq] at he
  obtain ⟨rfl, hc⟩ := he
  rw [join_type]
  split
  · rcases c with - | d
    · simp [World.equal]
    · simpa [World.equal] using h d rfl
  · rename_i hne
    have hvs : vs = [] := by
      by_contra hvs
      obtain ⟨rfl, h0⟩ := one hvs
      exact hne ⟨(one' hvs).1.symm, h0⟩
    rcases c with - | d <;> rcases c' with - | d' <;> simp_all [World.equal]

/-- **Equal annotations have a union**, which is equal to them. -/
theorem unionAux_of_equal (ho : w.Ordered) (effects : Bool) (ha : Steady w made n a) (hb : Steady w made n b) (he : w.equal a b = true) :
    ∃ r w', unionAux n effects a b k w = .ok r w' ∧ w.Alike w' ∧ w'.equal r a = true := by
  induction n generalizing effects a b w with
  | zero => cases ha
  | succ n ih =>
    have self : w.equal a a = true := ha.equal_self
    have joined (h : unionAux (n + 1) effects a b k w = .ok (join w a b) w) (hj : w.equal (join w a b) a = true) :
        ∃ r w', unionAux (n + 1) effects a b k w = .ok r w' ∧ w.Alike w' ∧ w'.equal r a = true := ⟨_, w, h, .refl w, hj⟩
    have stays (h : unionAux (n + 1) effects a b k w = .ok a w) :
        ∃ r w', unionAux (n + 1) effects a b k w = .ok r w' ∧ w.Alike w' ∧ w'.equal r a = true := ⟨a, w, h, .refl w, self⟩
    have below (effects : Bool) (x y : Annot) (v : World) (hv : w.Alike v) (hx : Steady v made n x) (hy : Steady v made n y)
        (hxy : v.equal x y = true) := ih (hv.ordered ho) effects hx hy hxy
    cases ha
    case float c t h =>
      obtain ⟨c', t', rfl⟩ := eq_float_of_equal he
      exact joined rfl (join_float_of_equal h he)
    all_goals cases hb <;> try exact Bool.noConfusion (show false = true from he)
    case object.object | impossible.impossible | none.none => exact stays rfl
    case bool.bool c fs keys hf c' gs keys' hg =>
      simp only [World.equal, Bool.and_eq_true, beq_iff_eq] at he
      obtain ⟨⟨rfl, -⟩, hfacts⟩ := he
      obtain ⟨rs, w', hrs, s, hlen, each⟩ := mergeFacts_of_equal (k := k) hf hg hfacts (below false)
      refine ⟨bool c rs, w', ?_, s, ?_⟩
      · rw [unionAux, bind_of_ok hrs, sameOr_self]
        rfl
      · simp only [World.equal, beq_self_eq_true, hlen, Bool.true_and, s.factsEqual, factsEqual_iff]
        intro r hr
        obtain ⟨f, hf, ho, hv, he⟩ := each r hr
        exact ⟨f.value, ho ▸ hv ▸ findFact?_of_mem keys hf, he⟩
    case int.int i hi j hj =>
      cases eq_of_beq (show (i == j) = true from he)
      refine joined rfl ?_
      rw [join_int_int, IntFact.union_self hi]
      exact self
    case char.char | unichar.unichar =>
      simp only [World.equal, Bool.and_eq_true, beq_iff_eq] at he
      obtain ⟨rfl, rfl⟩ := he
      exact joined rfl (by simp [World.equal])
    case str.str | unicode.unicode =>
      simp only [World.equal, Bool.and_eq_true, beq_iff_eq] at he
      obtain ⟨⟨rfl, rfl⟩, rfl⟩ := he
      exact joined rfl (by simp [World.equal])
    case tuple.tuple t o xs hx t' o' ys hy =>
      by_cases ht : t = t'
      · refine stays ?_
        rw [unionAux, if_pos (by simpa using ht)]
        rfl
      · have hxy : w.itemsEqual xs ys = true := he
        obtain ⟨rs, w₁, hrs, s₁, hitems⟩ := mapM_of_equal (k := k) hx hy hxy (below effects)
        obtain ⟨t'', o'', w₂, h₂, s₂⟩ := newTuple_ok rs k w₁
        have hlen : xs.length = ys.length := (itemsEqual_iff.1 hxy).length_eq
        refine ⟨tuple t'' o'' rs, w₂, ?_, s₁.trans s₂, ((s₁.trans s₂).equal _ _).trans hitems⟩
        rw [unionAux, if_neg (by simpa using ht), if_neg (by simpa using hlen), bind_of_ok hrs, h₂]
    case list.list d e =>
      have hde : (w.listItemId d == w.listItemId e) = true := he
      refine stays ?_
      rw [unionAux]
      refine (bind_of_ok (m := get) rfl).trans ?_
      rw [if_pos hde]
      rfl
    case dict.dict d e =>
      refine stays ?_
      rw [unionAux]
      refine (bind_of_ok (m := get) rfl).trans ?_
      rw [if_pos he]
      rfl
    case inst.inst c m fs c' m' fs' =>
      simp only [World.equal, Bool.and_eq_true, beq_iff_eq] at he
      obtain ⟨⟨rfl, rfl⟩, rfl⟩ := he
      exact joined rfl (by simp [join_inst, World.equal])
    case pbc.pbc ds m h es m' h' =>
      simp only [World.equal, Bool.and_eq_true, beq_iff_eq] at he
      obtain ⟨rfl, rfl⟩ := he
      refine stays ?_
      rw [unionAux, h.newPbc_self, Bool.or_self]
    case iter.iter c v h c' v' h' =>
      simp only [World.equal, Bool.and_eq_true, beq_iff_eq] at he
      obtain ⟨rfl, he⟩ := he
      obtain ⟨r, w', hr, s, hself⟩ := ih ho effects h h' he
      refine ⟨iter r v, w', ?_, s, by simpa [World.equal] using hself⟩
      rw [unionAux, if_neg (by simp), bind_of_ok hr]
      rfl
    case builtin.builtin x y =>
      cases eq_of_beq (show (x == y) = true from he)
      exact joined rfl (by simp [join_builtin, World.equal])
    case method.method x s h y s' h' =>
      simp only [World.equal, Bool.and_eq_true, beq_iff_eq] at he
      obtain ⟨rfl, he⟩ := he
      obtain ⟨r, w', hr, s, hself⟩ := ih ho effects h h' he
      refine ⟨method x r, w', ?_, s, by simpa [World.equal] using hself⟩
      rw [unionAux, if_neg (by simp), bind_of_ok hr]
      rfl
    case type.type c vs t h one c' vs' t' h' one' => exact joined rfl (join_type_of_equal h one one' he)
    case weakref.weakref c c' =>
      cases eq_of_beq (show (c == c') = true from he)
      refine joined rfl ?_
      rw [join_weakref]
      cases c with
      | none => rfl
      | some x => simp [World.commonBase?_self ho, World.equal]

/-- **Unions are idempotent.**  Two annotations as they are made that are equal have a union, which is equal to them, and making it
changes nothing but tags and host objects.  So a variable that is bound to one of them and is given the other one stays bound
to an annotation that is equal to the one it had. -/
theorem union_of_equal (ho : w.Ordered) (ha : Steady w made World.annotDepth a) (hb : Steady w made World.annotDepth b) (he : w.equal a b = true)
    (k : Knot) : (∃ r w', union a b k w = .ok r w' ∧ w.Alike w' ∧ w'.equal r a = true) ∧ ∀ v, w.progress.bindings[v]? = some a →
        ∃ r w', setBinding v b k w = .ok () (w'.bindTo v r) ∧ w.Alike w' ∧ w'.equal r a = true := by
  obtain ⟨r, w', hu, s, hr⟩ := unionAux_of_equal (k := k) ho true ha hb he
  refine ⟨⟨r, w', hu, s, hr⟩, fun v hv => ⟨r, w', ?_, s, hr⟩⟩
  have hbinding : bindingOf? v k w = .ok (some a) w := congrArg (EStateM.Result.ok · w) hv
  have htop : checkTop a b r k w' = .ok () w' := by
    cases r
    case object =>
      -- only the top is equal to the top
      cases a <;> first | rfl | exact Bool.noConfusion (show false = true from hr)
    all_goals rfl
  unfold setBinding
  rw [bind_of_ok hbinding]
  dsimp only
  rw [bind_of_ok (show union a b k w = .ok r w' from hu), bind_of_ok htop]
  rfl

/-- A pair of an instance and the type of a variable. -/
def typedPair (tag : Nat) : Annot := tuple tag Option.none [instOf 2, type Option.none [7] 5]

/-- A variable that is bound to such a pair. -/
def boundPair : World := siblings.bindTo 3 (typedPair 1)

/-- A pair that is made once more, of the same type. -/
theorem union_of_equal_pairs :
    (∃ r w', union (typedPair 1) (typedPair 2) idle boundPair = .ok r w' ∧ boundPair.Alike w' ∧ w'.equal r (typedPair 1) = true) ∧
      ∃ r w', setBinding 3 (typedPair 2) idle boundPair = .ok () (w'.bindTo 3 r) ∧ boundPair.Alike w' ∧ w'.equal r (typedPair 1) = true := by
  have steady (tag : Nat) : Steady boundPair (fun _ => 5) World.annotDepth (typedPair tag) := by
    refine .tuple (n := World.annotDepth - 1) tag .none (forall_mem_cons.2 ⟨?_, forall_mem_singleton.2 ?_⟩)
    · exact .inst (n := World.annotDepth - 2) (some 2) false []
    · exact .type (n := World.annotDepth - 2) nofun fun _ => ⟨rfl, by decide⟩
  have ordered : boundPair.Ordered := siblingScope.ordered
  have found : boundPair.progress.bindings[3]? = some (typedPair 1) := Std.HashMap.getElem?_insert_self
  obtain ⟨union, binding⟩ := union_of_equal ordered (steady 1) (steady 2) rfl idle
  exact ⟨union, binding 3 found⟩

/-- **A type that is made once more** is equal to the first one, but their union is not: it is a type of no variable. -/
theorem union_forgets_variables : (do
    let a ← typeOf Option.none [7]
    let b ← typeOf Option.none [7]
    let u ← union a b
    return ((← get).equal a b, (← get).equal u a, u) : Ana (Bool × Bool × Annot)) idle siblings =
      .ok (true, false, someType) { siblings with nextTag := siblings.nextTag + 2 } := rfl

end Annot
end FlowCompiler
