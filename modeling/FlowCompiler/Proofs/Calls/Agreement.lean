import FlowCompiler.Lowering.Families
import FlowCompiler.Proofs.Union.Upper

/-!
# Agreement of the graphs of a row

Graphs that are called through one pointer get the same annotations for their parameters, round by round, until a
round changes no parameter.  The results are widened as well, but that a result has grown does not lead to another
round: a row agrees in its results only where none of its graphs stands in a row that comes later.
-/

namespace FlowCompiler

open List

variable {v : VarId} {P : VarId → Prop}

/-! ## What a pointer shows -/

/-- What the representation of an annotation depends on, but for the items of its lists and dictionaries. -/
def Annot.bareKey (a : Annot) : String := ({} : World).reprKey a

theorem World.bareKey_of_equal (w : World) (a b : Annot) : w.equal a b = true → a.bareKey = b.bareKey := by
  apply World.equal.induct (fun a b => w.equal a b = true → a.bareKey = b.bareKey)
    (fun xs ys => w.itemsEqual xs ys = true → ({} : World).reprKeys xs = ({} : World).reprKeys ys) fun _ _ => True
  case case5 =>
    intro i j (h : (i == j) = true)
    rw [eq_of_beq h]
  case case12 =>
    intro _ _ xs _ _ ys ih h
    exact congrArg (fun s => "tuple(" ++ s ++ ")") (ih h)
  case case15 =>
    intro c m fs c' m' fs' h
    simp only [equal, Bool.and_eq_true, beq_iff_eq] at h
    rw [h.1.1]
    cases c' <;> rfl
  case case16 =>
    intro ds m ds' m' h
    simp only [equal, Bool.and_eq_true, beq_iff_eq] at h
    rw [h.1, h.2]
  case case17 =>
    intro c v c' v' ih h
    simp only [equal, Bool.and_eq_true, beq_iff_eq] at h
    rw [h.1]
    exact congrArg ("iter:" ++ v' ++ ":" ++ ·) (ih h.2)
  case case18 =>
    intro name name' (h : (name == name') = true)
    rw [eq_of_beq h]
  case case19 =>
    intro name s name' s' ih h
    simp only [equal, Bool.and_eq_true, beq_iff_eq] at h
    rw [h.1]
    exact congrArg ("bmeth:" ++ name' ++ ":" ++ ·) (ih h.2)
  case case21 =>
    intro c c' (h : (c == c') = true)
    rw [eq_of_beq h]
  case case22 =>
    intros
    simp_all only [equal]
    contradiction
  case case26 =>
    intro x xs y ys ih ihs h
    simp only [itemsEqual, Bool.and_eq_true] at h
    exact congrArg₂ (fun s t => s ++ "," ++ t) (ih h.1) (ihs h.2)
  case case27 =>
    intros
    simp_all only [itemsEqual]
    contradiction
  all_goals
    intros
    first
    | rfl
    | trivial

namespace World

/-- The representations of the parameters of a graph. -/
def paramKeys (w : World) (g : GraphId) : List String := (w.prog.flow.argsOf g).map fun v => (w.bound v).bareKey

/-- The representation of the result of a graph. -/
def resultKey (w : World) (g : GraphId) : String := (w.bound (w.prog.flow.returnVar g)).bareKey

/-- All rows of all call tables, in the order in which they are looked at. -/
def callRows (w : World) : List Row := (Ana.callFamilies w).flatMap fun f => (Ana.sortedTables f).flatMap Prod.snd

theorem callRows_bindTo (w : World) (v : VarId) (a : Annot) : (w.bindTo v a).callRows = w.callRows := rfl

/-- A later state in which only some variables are bound anew. -/
structure Sets (vs : List VarId) (w w' : World) : Prop where
  flow : w'.prog.flow = w.prog.flow
  callPartition : w'.callPartition = w.callPartition
  callFamilies : w'.callFamilies = w.callFamilies
  later : w.Later w'
  bound : ∀ {v : VarId}, v ∉ vs → w'.bound v = w.bound v

namespace Sets

variable {vs us : List VarId} {w w' w'' : World}

theorem of_idle (h : w.Idle w') : Sets vs w w' :=
  ⟨h.flow, h.callPartition, h.callFamilies, h.toLater, fun _ => by rw [World.bound, World.bound, h.bindings]⟩

theorem trans (h : Sets vs w w') (h' : Sets vs w' w'') : Sets vs w w'' :=
  ⟨h'.flow.trans h.flow, h'.callPartition.trans h.callPartition, h'.callFamilies.trans h.callFamilies, h.later.trans h'.later,
    fun hv => (h'.bound hv).trans (h.bound hv)⟩

theorem mono (h : Sets vs w w') (hs : vs ⊆ us) : Sets us w w' :=
  ⟨h.flow, h.callPartition, h.callFamilies, h.later, fun hv => h.bound fun hm => hv (hs hm)⟩

theorem callRows (h : Sets vs w w') : w'.callRows = w.callRows := by
  rw [World.callRows, World.callRows, Ana.callFamilies, Ana.callFamilies, h.callPartition, h.callFamilies]

instance : Ana.Frame (Sets vs) := ⟨trans, of_idle⟩

end Sets
end World

/-! ## Steps that answer no -/

namespace Ana

variable {α : Type} {k : Knot} {w w' : World}

/-- A question is answered with no for all of a list, one after the other. -/
inductive Refused (f : α → Ana Bool) (k : Knot) : List α → World → World → Prop
  | nil (w : World) : Refused f k [] w w
  | cons {x : α} {xs : List α} {w w₁ w' : World} : f x k w = .ok false w₁ → Refused f k xs w₁ w' → Refused f k (x :: xs) w w'

theorem refused_of_filterM {f : α → Ana Bool} {xs : List α} (h : xs.filterM f k w = .ok [] w') : Refused f k xs w w' := by
  have go (acc : List α) : xs.filterAuxM f acc k w = .ok [] w' → acc = [] ∧ Refused f k xs w w' := by
    clear h
    induction xs generalizing acc w with
    | nil =>
      intro h
      cases h
      exact ⟨rfl, .nil _⟩
    | cons x xs ih =>
      intro h
      obtain ⟨b, w₁, h₁, h₂⟩ := of_bind_ok h
      obtain ⟨hacc, hxs⟩ := ih _ h₂
      cases b with
      | false => exact ⟨hacc, .cons h₁ hxs⟩
      | true => cases hacc
  obtain ⟨ys, w₁, h₁, h₂⟩ := of_bind_ok h
  have hys : ys = [] ∧ w₁ = w' := by
    cases ys with
    | nil =>
      cases h₂
      exact ⟨rfl, rfl⟩
    | cons y ys =>
      injection h₂ with h₂
      simp at h₂
  obtain ⟨rfl, rfl⟩ := hys
  exact (go [] h₁).2

theorem length_of_mapM {β : Type} {f : α → Ana β} {xs : List α} {ys : List β} (h : xs.mapM f k w = .ok ys w') : ys.length = xs.length := by
  induction xs generalizing ys w with
  | nil =>
    cases h
    rfl
  | cons x xs ih =>
    rw [mapM_cons] at h
    obtain ⟨y, w₁, -, h⟩ := of_bind_ok h
    obtain ⟨zs, w₂, h₂, h⟩ := of_bind_ok h
    cases h
    exact congrArg (· + 1) (ih h₂)

end Ana

variable {before : List Row} {x : Annot} {after : List Row} {z : Annot} {as : List Annot}

namespace Typing

open Ana World

variable {k : Knot} {w w' : World} {row : Row} {gs : List GraphId}

theorem bindingsOf_eq (vs : List VarId) (k : Knot) (w : World) : bindingsOf vs k w = .ok (vs.map w.bound) w := by
  induction vs with
  | nil => rfl
  | cons v vs ih =>
    have hv : bindingOrImpossible (.var v) k w = .ok (w.bound v) w := rfl
    unfold bindingsOf at ih ⊢
    rw [mapM_cons, bind_of_ok hv, bind_of_ok ih]
    rfl

theorem of_checkArity {u : PUnit} (h : checkArity gs k w = .ok u w') :
    w' = w ∧ ∀ g ∈ gs, (w.prog.flow.argsOf g).length = (w.prog.flow.argsOf (gs.head?.getD 0)).length := by
  obtain ⟨w₁, w₂, h₁, h⟩ := of_bind_ok h
  cases h₁
  cases gs with
  | nil =>
    cases h
    exact ⟨rfl, nofun⟩
  | cons g rest =>
    dsimp only at h
    generalize hfind : rest.find? _ = other at h
    cases other with
    | some _ => cases h
    | none =>
      cases h
      refine ⟨rfl, fun g' hg' => ?_⟩
      rcases mem_cons.1 hg' with rfl | hmem
      · rfl
      · simpa using List.find?_eq_none.1 hfind g' hmem

/-- Whether a graph has other annotations for its parameters than it should; it is entered again then. -/
def entersAgain (cells : List Annot) (g : GraphId) : Ana Bool := do
  let now ← bindingsOf (← paramsOf g)
  let w ← MonadState.get
  if (now.zip cells).all fun (a, b) => w.equal a b then pure false
  else
    Ana.addPendingBlock g ((w.prog.flow.graph g).start.getD 0) cells
    pure true

theorem kept_of_refused (cells : List Annot) (h : Refused (entersAgain cells) k gs w w') :
    w' = w ∧ ∀ g ∈ gs, ∀ p ∈ ((w.prog.flow.argsOf g).map w.bound).zip cells, w.equal p.1 p.2 = true := by
  induction h with
  | nil w => exact ⟨rfl, nofun⟩
  | @cons g gs w w₁ w' h hgs ih =>
    obtain ⟨vs, v₁, h₁, hrest⟩ := of_bind_ok h
    cases h₁
    rw [bind_of_ok (bindingsOf_eq ..)] at hrest
    obtain ⟨v₂, v₃, h₂, hrest⟩ := of_bind_ok hrest
    cases h₂
    split at hrest
    · rename_i hall
      cases hrest
      refine ⟨ih.1, fun g' hg' => ?_⟩
      rcases mem_cons.1 hg' with rfl | hmem
      · simpa using hall
      · exact ih.2 g' hmem
    · obtain ⟨u, v₄, -, hrest⟩ := of_bind_ok hrest
      cases hrest

theorem of_joinedParams {cells : List Annot} (h : joinedParams gs k w = .ok cells w') :
    cells.length = (w.prog.flow.argsOf (gs.head?.getD 0)).length ∧ w.Idle w' := by
  have idle : Along Idle k (joinedParams gs) := by
    have params (g : GraphId) : Along Idle k (paramsOf g) := inferInstanceAs (Along Idle k (MonadState.get >>= _))
    have binding (v : VarId) : Along Idle k (bindingOrImpossible (.var v)) := ⟨fun w => .refl w⟩
    unfold joinedParams
    infer_instance
  have hidle : w.Idle w' := Along.of_ok _ h
  obtain ⟨vs, w₁, h₁, h⟩ := of_bind_ok h
  cases h₁
  exact ⟨(length_of_mapM h).trans (by simp), hidle⟩

/-- **A row that changes no parameter:** its graphs take equally many, all equal to their unions, and then only results
are widened. -/
theorem of_normalizeRow (h : normalizeRow row k w = .ok false w') : (rowGraphs row).length < 2 ∧ w' = w ∨ ∃ cells w₁ joined w₂, (∀ g ∈ rowGraphs row,
      (w.prog.flow.argsOf g).length = cells.length) ∧ w.Idle w₁ ∧ (∀ g ∈ rowGraphs row, ∀ p ∈ ((w.prog.flow.argsOf g).map w.bound).zip cells,
      w₁.equal p.1 p.2 = true) ∧ unionOf ((rowGraphs row).map fun g => w.bound (w.prog.flow.returnVar g)) k w₁ = .ok joined w₂ ∧
      ((rowGraphs row).map w.prog.flow.returnVar).forM (fun v => generalize v joined) k w₂ = .ok ⟨⟩ w' := by
  unfold normalizeRow at h
  split at h
  · cases h
    exact .inl ⟨‹_›, rfl⟩
  refine .inr ?_
  obtain ⟨u, w₀, h₀, hrest⟩ := of_bind_ok h
  obtain ⟨rfl, arity⟩ := of_checkArity h₀
  obtain ⟨cells, w₁, h₁, hrest⟩ := of_bind_ok hrest
  obtain ⟨hcells, idle⟩ := of_joinedParams h₁
  obtain ⟨changed, w₂, h₂, hrest⟩ := of_bind_ok hrest
  obtain ⟨w₃, w₄, h₃, hrest⟩ := of_bind_ok hrest
  cases h₃
  rw [bind_of_ok (bindingsOf_eq ..)] at hrest
  obtain ⟨joined, w₄, h₄, hrest⟩ := of_bind_ok hrest
  obtain ⟨u', w₅, h₅, hrest⟩ := of_bind_ok hrest
  have hnone : changed = [] ∧ w₅ = w' := by
    injection hrest with e₁ e₂
    exact ⟨by simpa using e₁, e₂⟩
  obtain ⟨rfl, rfl⟩ := hnone
  obtain ⟨rfl, kept⟩ := kept_of_refused cells (refused_of_filterM h₂)
  have hbound : w₂.bound = w₀.bound := funext fun v => (Sets.of_idle idle).bound (not_mem_nil (a := v))
  rw [hbound, idle.flow] at kept
  rw [hbound, idle.flow, map_map] at h₄
  rw [idle.flow] at h₅
  exact ⟨cells, w₂, joined, w₄, fun g hg => (arity g hg).trans hcells.symm, idle, kept, h₄, h₅⟩

/-! ## Parameters -/

theorem eq_of_short {α : Type} {xs : List α} {x y : α} (h : xs.length < 2) (hx : x ∈ xs) (hy : y ∈ xs) : x = y := by
  match xs with
  | [] => cases hx
  | [z] => rw [mem_singleton.1 hx, mem_singleton.1 hy]
  | _ :: _ :: _ =>
    simp only [length_cons] at h
    omega

theorem map_eq_of_zip {α β : Type} {f : α → β} {xs ys : List α} (hl : xs.length = ys.length) (h : ∀ p ∈ xs.zip ys, f p.1 = f p.2) :
    xs.map f = ys.map f := by
  induction xs generalizing ys with
  | nil =>
    cases ys with
    | nil => rfl
    | cons y ys => cases hl
  | cons x xs ih =>
    cases ys with
    | nil => cases hl
    | cons y ys =>
      have hxy : f x = f y := h (x, y) (by simp)
      rw [map_cons, map_cons, hxy, ih (by simpa using hl) fun p hp => h p (by simp [hp])]

variable {vs : List VarId}

theorem along_generalize (hv : v ∈ vs) (a : Annot) : Along (Sets vs) k (generalize v a) := by
  have bind (a : Annot) : Along (Sets vs) k (bindVar v a) := by
    refine ⟨fun w => ⟨rfl, rfl, rfl, ⟨rfl, rfl, prefix_refl _, Nat.le_refl _⟩, fun {u} hu => ?_⟩⟩
    have hne : v ≠ u := fun e => hu (e ▸ hv)
    exact (w.bound_bindTo v u a).trans (if_neg hne)
  have lookup : Along (Sets vs) k (bindingOf? v) := .bind
  refine .seq fun old => ?_
  cases old <;> infer_instance

/-- The results of the graphs of a row. -/
def rowResults (w : World) (row : Row) : List VarId := (rowGraphs row).map w.prog.flow.returnVar

theorem rowResults_of_sets (h : Sets vs w w') : rowResults w' = rowResults w := by
  funext r
  rw [rowResults, rowResults, h.flow]

/-- **One row:** where no parameter changes, the parameters of all graphs have the same representations, and only results
are widened. -/
theorem sets_of_normalizeRow (h : normalizeRow row k w = .ok false w') : Sets (rowResults w row) w w' ∧
    ∀ g ∈ rowGraphs row, ∀ g' ∈ rowGraphs row, w.paramKeys g = w.paramKeys g' := by
  rcases of_normalizeRow h with ⟨hlt, rfl⟩ | ⟨cells, w₁, joined, w₂, arity, idle, kept, hjoin, hset⟩
  · refine ⟨.of_idle (.refl _), fun g hg g' hg' => ?_⟩
    rw [eq_of_short hlt hg hg']
  · have results : Along (Sets (rowResults w row)) k ((rowResults w row).forM fun v => generalize v joined) :=
      .each fun v hv => along_generalize hv joined
    have union : w₁.Idle w₂ := Along.of_ok _ hjoin
    have widened : Sets (rowResults w row) w₂ w' := Along.of_ok _ (h := results) hset
    refine ⟨.trans (.of_idle (idle.trans union)) widened, fun g hg g' hg' => ?_⟩
    have keys {g : GraphId} (hg : g ∈ rowGraphs row) : w.paramKeys g = cells.map Annot.bareKey := by
      have hlen : ((w.prog.flow.argsOf g).map w.bound).length = cells.length := by rw [length_map, arity g hg]
      have hmap := map_eq_of_zip hlen fun p hp => w₁.bareKey_of_equal _ _ (kept g hg p hp)
      rwa [map_map] at hmap
    rw [keys hg, keys hg']

/-- No graph of a row takes the result of one as a parameter. -/
def Apart (flow : FlowStore) (rows : List Row) : Prop :=
  ∀ row ∈ rows, ∀ g ∈ rowGraphs row, ∀ row' ∈ rows, ∀ g' ∈ rowGraphs row', flow.returnVar g' ∉ flow.argsOf g

theorem paramKeys_of_sets {g : GraphId} (h : Sets vs w w') (hg : ∀ v ∈ w.prog.flow.argsOf g, v ∉ vs) : w'.paramKeys g = w.paramKeys g := by
  unfold paramKeys
  rw [h.flow]
  exact map_congr_left fun v hv => by rw [h.bound (hg v hv)]

/-- **All rows, one after the other:** only results are widened, and where no parameter is a result the parameters of each
row agree. -/
theorem sets_of_refused {rows : List Row} (h : Refused normalizeRow k rows w w') : Sets (rows.flatMap (rowResults w)) w w' ∧
    (Apart w.prog.flow rows → ∀ row ∈ rows, ∀ g ∈ rowGraphs row, ∀ g' ∈ rowGraphs row, w.paramKeys g = w.paramKeys g') := by
  induction h with
  | nil w => exact ⟨.of_idle (.refl w), nofun⟩
  | @cons row rows w w₁ w' h hrest ih =>
    obtain ⟨first, agree⟩ := sets_of_normalizeRow h
    obtain ⟨rest, agrees⟩ := ih
    rw [rowResults_of_sets first] at rest
    constructor
    · exact (first.mono (by simp)).trans (rest.mono (by simp))
    · intro apart r hr g hg g' hg'
      rcases mem_cons.1 hr with rfl | hr
      · exact agree g hg g' hg'
      · have kept {x : GraphId} (hx : x ∈ rowGraphs r) : w₁.paramKeys x = w.paramKeys x := by
          refine paramKeys_of_sets first fun v hv hmem => ?_
          obtain ⟨y, hy, rfl⟩ := mem_map.1 hmem
          exact apart r (by simp [hr]) x hx row (by simp) y hy hv
        have hrows : Apart w₁.prog.flow rows := by
          rw [first.flow]
          exact fun a ha x hx b hb => apart a (by simp [ha]) x hx b (by simp [hb])
        rw [← kept hg, ← kept hg']
        exact agrees hrows r hr g hg g' hg'

/-! ## Results -/

section

open Annot

variable {S : Scope} {τ : Nat → Annot}

theorem join_foldl (hx : Fits S x) (hz : Fits S z) (has : ∀ a ∈ as, Fits S a) (h : join S.world x z = z) :
    join S.world x (as.foldl (join S.world) z) = as.foldl (join S.world) z := by
  induction as generalizing z with
  | nil => exact h
  | cons a as ih =>
    refine ih (hz.join (has a (by simp))) (fun b hb => has b (by simp [hb])) ?_
    rw [← join_assoc hx hz (has a (by simp)), h]

theorem foldl_absorbs (hS : ¬ S.containers) (hz : Fits S z) (has : ∀ a ∈ as, Fits S a) (hx : x ∈ as) :
    join S.world x (as.foldl (join S.world) z) = as.foldl (join S.world) z := by
  induction as generalizing z with
  | nil => cases hx
  | cons a as ih =>
    have ha := has a (by simp)
    have hrest : ∀ b ∈ as, Fits S b := fun b hb => has b (by simp [hb])
    rcases mem_cons.1 hx with rfl | hx
    · rw [foldl_cons]
      refine join_foldl ha (hz.join ha) hrest ?_
      rw [join_comm hS ha (hz.join ha), join_assoc hz ha ha, join_self ha]
    · exact ih (hz.join ha) hrest hx

/-- The annotations of some variables fit together. -/
def AllKnown (S : Scope) (τ : Nat → Annot) (w : World) (P : VarId → Prop) : Prop := ∀ v, P v → Known S τ w (w.bound v)

theorem known_of_generalize {a : Annot} (hw : S.world.Later w) (known : AllKnown S τ w P) (hv : P v) (ha : Known S τ w a)
    (h : generalize v a k w = .ok ⟨⟩ w') :
    w.Later w' ∧ (w'.bound v).plain = join S.world (w.bound v).plain a.plain ∧ (∀ u ≠ v, w'.bound u = w.bound u) ∧
      ∃ τ', Agree w.nextTag τ τ' ∧ AllKnown S τ' w' P := by
  obtain ⟨old, w₀, h₀, hrest⟩ := of_bind_ok h
  cases h₀
  -- What is bound is a union with the old annotation, or the new one where there was none.
  have union : ∃ r w₁, w.Later w₁ ∧ (∀ u, w₁.bound u = w.bound u) ∧ r.plain = join S.world (w.bound v).plain a.plain ∧
      (∃ τ', Agree w.nextTag τ τ' ∧ Known S τ' w₁ r) ∧ w' = w₁.bindTo v r := by
    cases hold : w.progress.bindings[v]? with
    | some old =>
      rw [hold] at hrest
      obtain ⟨r, w₁, h₁, hbind⟩ := of_bind_ok hrest
      cases hbind
      have hv' : w.bound v = old := by rw [bound, hold]; rfl
      have idle : w.Idle w₁ := Along.of_ok _ h₁
      obtain ⟨l₁, hr, τ', hτ, hk⟩ := union_step hw (hv' ▸ known v hv) ha h₁
      exact ⟨r, w₁, l₁, fun u => by rw [bound, bound, idle.bindings], by rw [hv', hr], ⟨τ', hτ, hk⟩, rfl⟩
    | none =>
      rw [hold] at hrest
      cases hrest
      have hv' : w.bound v = impossible := by rw [bound, hold]; rfl
      exact ⟨a, w, .refl _, fun _ => rfl, by rw [hv']; rfl, ⟨τ, .refl _ _, ha⟩, rfl⟩
  obtain ⟨r, w₁, l₁, hbound, hr, ⟨τ', hτ, hk⟩, rfl⟩ := union
  have l₂ : w₁.Later (w₁.bindTo v r) := ⟨rfl, rfl, prefix_refl _, Nat.le_refl _⟩
  have hself : (w₁.bindTo v r).bound v = r := (w₁.bound_bindTo v v r).trans (if_pos rfl)
  have hother (u : VarId) (hu : u ≠ v) : (w₁.bindTo v r).bound u = w.bound u := ((w₁.bound_bindTo v u r).trans (if_neg hu.symm)).trans (hbound u)
  refine ⟨l₁.trans l₂, by rw [hself, hr], hother, τ', hτ, fun u hu => ?_⟩
  by_cases e : u = v
  · rw [e, hself]
    exact hk.later (.refl _ _) l₂
  · rw [hother u e]
    exact (known u hu).later hτ (l₁.trans l₂)

theorem known_of_forM {a : Annot} (hw : S.world.Later w) (known : AllKnown S τ w P)
    (hv : ∀ v ∈ vs, P v ∧ join S.world (w.bound v).plain a.plain = a.plain) (ha : Known S τ w a)
    (h : vs.forM (fun v => generalize v a) k w = .ok ⟨⟩ w') :
    (∀ v ∈ vs, (w'.bound v).plain = a.plain) ∧ (∀ v, (w.bound v).plain = a.plain → (w'.bound v).plain = a.plain) ∧
      ∃ τ', Agree w.nextTag τ τ' ∧ AllKnown S τ' w' P := by
  induction vs generalizing w τ with
  | nil =>
    cases h
    exact ⟨nofun, fun _ h => h, τ, .refl _ _, known⟩
  | cons v vs ih =>
    obtain ⟨u, w₁, h₁, hrest⟩ := of_bind_ok (m := generalize v a) (f := fun _ => vs.forM fun v => generalize v a) h
    obtain ⟨hp, habs⟩ := hv v (by simp)
    obtain ⟨l₁, hself, hother, τ₁, hτ₁, known₁⟩ := known_of_generalize hw known hp ha h₁
    rw [habs] at hself
    have keep (x : VarId) (hx : (w.bound x).plain = a.plain) : (w₁.bound x).plain = a.plain := by
      by_cases e : x = v
      · rw [e, hself]
      · rw [hother x e, hx]
    have hv₁ (x : VarId) (hx : x ∈ vs) : P x ∧ join S.world (w₁.bound x).plain a.plain = a.plain := by
      refine ⟨(hv x (by simp [hx])).1, ?_⟩
      by_cases e : x = v
      · rw [e, hself, join_self ha.fits]
      · rw [hother x e, (hv x (by simp [hx])).2]
    obtain ⟨all, keep', τ₂, hτ₂, known₂⟩ := ih (hw.trans l₁) known₁ hv₁ (ha.later hτ₁ l₁) hrest
    refine ⟨fun x hx => ?_, fun x hx => keep' x (keep x hx), τ₂, hτ₁.trans hτ₂ l₁.nextTag, known₂⟩
    rcases mem_cons.1 hx with rfl | hx
    · exact keep' x hself
    · exact all x hx

/-- **One row:** its results, where they fit together, are widened to one annotation. -/
theorem known_of_normalizeRow (hS : ¬ S.containers) (hw : S.world.Later w) (known : AllKnown S τ w P) (hrow : ∀ v ∈ rowResults w row, P v)
    (h : normalizeRow row k w = .ok false w') : (∀ v ∈ rowResults w row, ∀ v' ∈ rowResults w row, (w'.bound v).plain = (w'.bound v').plain) ∧
      ∃ τ', Agree w.nextTag τ τ' ∧ AllKnown S τ' w' P := by
  rcases of_normalizeRow h with ⟨hlt, rfl⟩ | ⟨cells, w₁, joined, w₂, -, idle, -, hjoin, hset⟩
  · refine ⟨fun v hv v' hv' => ?_, τ, .refl _ _, known⟩
    rw [eq_of_short (by simpa [rowResults] using hlt) hv hv']
  · have hbound (v : VarId) : w₁.bound v = w.bound v := by rw [bound, bound, idle.bindings]
    have hresults (a : Annot) (ha : a ∈ (rowGraphs row).map fun g => w.bound (w.prog.flow.returnVar g)) : Known S τ w₁ a := by
      obtain ⟨g, hg, rfl⟩ := mem_map.1 ha
      exact (known _ (hrow _ (mem_map.2 ⟨g, hg, rfl⟩))).later (.refl _ _) idle.toLater
    have himp : Known S τ w₁ impossible := ⟨.impossible, trivial⟩
    obtain ⟨l₂, hplain, τ₂, hτ₂, hk⟩ := known_run (hw.trans idle.toLater) himp hresults hjoin
    have idle₂ : w₁.Idle w₂ := Along.of_ok _ hjoin
    have hbound₂ (v : VarId) : w₂.bound v = w.bound v := by rw [bound, idle₂.bindings, ← bound, hbound]
    have known₂ : AllKnown S τ₂ w₂ P := fun v hv => by
      rw [hbound₂]
      exact (known v hv).later (fun t ht => hτ₂ t (Nat.lt_of_lt_of_le ht idle.nextTag)) (idle.toLater.trans l₂)
    have absorbed (v : VarId) (hv : v ∈ rowResults w row) : P v ∧ join S.world (w₂.bound v).plain joined.plain = joined.plain := by
      refine ⟨hrow v hv, ?_⟩
      rw [hbound₂, hplain]
      refine foldl_absorbs hS himp.fits (fun a ha => ?_) ?_
      · obtain ⟨b, hb, rfl⟩ := mem_map.1 ha
        exact (hresults b hb).fits
      · obtain ⟨g, hg, rfl⟩ := mem_map.1 hv
        exact mem_map.2 ⟨_, mem_map.2 ⟨g, hg, rfl⟩, rfl⟩
    obtain ⟨all, -, τ₃, hτ₃, known₃⟩ := known_of_forM (hw.trans (idle.toLater.trans l₂)) known₂ absorbed hk hset
    refine ⟨fun v hv v' hv' => by rw [all v hv, all v' hv'], τ₃, ?_, known₃⟩
    exact .trans (fun t ht => hτ₂ t (Nat.lt_of_lt_of_le ht idle.nextTag)) hτ₃ (Nat.le_trans idle.nextTag l₂.nextTag)

/-- **All rows, one after the other:** a row agrees in its results, where these fit together, and goes on doing so until a
row with one of its graphs is met. -/
theorem results_of_refused (hS : ¬ S.containers) (hw : S.world.Later w) (known : AllKnown S τ w P)
    (hP : ∀ r ∈ before ++ row :: after, ∀ v ∈ rowResults w r, P v) (hlast : ∀ r ∈ after, ∀ v ∈ rowResults w row, v ∉ rowResults w r)
    (h : Refused normalizeRow k (before ++ row :: after) w w') :
    ∀ v ∈ rowResults w row, ∀ v' ∈ rowResults w row, ∃ p, Fits S p ∧ (w'.bound v).plain = p ∧ (w'.bound v').plain = p := by
  induction before generalizing w τ with
  | nil =>
    cases h with
    | @cons _ _ _ w₁ _ hrow hrest =>
      have first := (sets_of_normalizeRow hrow).1
      have rest := (sets_of_refused hrest).1
      rw [rowResults_of_sets first] at rest
      obtain ⟨same, τ₁, -, known₁⟩ := known_of_normalizeRow hS hw known (hP row (by simp)) hrow
      have kept {v : VarId} (hv : v ∈ rowResults w row) : w'.bound v = w₁.bound v := by
        refine rest.bound fun hmem => ?_
        obtain ⟨r, hr, hvr⟩ := mem_flatMap.1 hmem
        exact hlast r hr v hv hvr
      intro v hv v' hv'
      refine ⟨(w₁.bound v).plain, (known₁ v (hP row (by simp) v hv)).fits, by rw [kept hv], ?_⟩
      rw [kept hv', same v' hv' v hv]
  | cons r before ih =>
    cases h with
    | @cons _ _ _ w₁ _ hrow hrest =>
      have first := (sets_of_normalizeRow hrow).1
      obtain ⟨-, τ₁, -, known₁⟩ := known_of_normalizeRow hS hw known (hP r (by simp)) hrow
      have later := ih (hw.trans first.later) known₁
      rw [rowResults_of_sets first] at later
      exact later (fun x hx => hP x (by simp [hx])) hlast hrest

end

/-! ## Rounds -/

section

variable (h : normalizeRound k w = .ok false w')
include h

theorem refused_of_normalizeRound : Refused normalizeRow k w.callRows w w' := by
  obtain ⟨w₁, w₂, h₁, hrest⟩ := of_bind_ok h
  cases h₁
  obtain ⟨changed, w₃, h₃, hend⟩ := of_bind_ok hrest
  have hnone : changed = [] ∧ w₃ = w' := by
    injection hend with e₁ e₂
    exact ⟨by simpa using e₁, e₂⟩
  obtain ⟨rfl, rfl⟩ := hnone
  exact refused_of_filterM h₃

/-- In a round that changes no parameter, the parameters of each row agree. -/
theorem params_of_round (apart : Apart w'.prog.flow w'.callRows) :
    ∀ row ∈ w'.callRows, ∀ g ∈ rowGraphs row, ∀ g' ∈ rowGraphs row, w'.paramKeys g = w'.paramKeys g' := by
  obtain ⟨sets, agree⟩ := sets_of_refused (refused_of_normalizeRound h)
  rw [sets.flow, sets.callRows] at apart
  rw [sets.callRows]
  intro row hrow g hg g' hg'
  have kept {x : GraphId} (hx : x ∈ rowGraphs row) : w'.paramKeys x = w.paramKeys x := by
    refine paramKeys_of_sets sets fun y hy hmem => ?_
    obtain ⟨r, hr, hyr⟩ := mem_flatMap.1 hmem
    obtain ⟨z, hz, rfl⟩ := mem_map.1 hyr
    exact apart row hrow x hx r hr z hz hy
  rw [kept hg, kept hg']
  exact agree apart row hrow g hg g' hg'

/-- In such a round, the results of a row agree that shares no result with a later row. -/
theorem results_of_round {S : Annot.Scope} {τ : Nat → Annot} (hS : ¬ S.containers) (hw : S.world.Later w)
    (known : AllKnown S τ w fun x => ∃ row ∈ w'.callRows, x ∈ rowResults w' row) (hrows : w'.callRows = before ++ row :: after)
    (hlast : ∀ r ∈ after, ∀ x ∈ rowResults w' row, x ∉ rowResults w' r) :
    ∀ g ∈ rowGraphs row, ∀ g' ∈ rowGraphs row, w'.resultKey g = w'.resultKey g' := by
  have refused := refused_of_normalizeRound h
  have sets := (sets_of_refused refused).1
  rw [sets.callRows] at hrows
  rw [rowResults_of_sets sets] at known hlast
  rw [sets.callRows, hrows] at known
  rw [hrows] at refused
  intro g hg g' hg'
  have result {x : GraphId} (hx : x ∈ rowGraphs row) : w.prog.flow.returnVar x ∈ rowResults w row := mem_map.2 ⟨x, hx, rfl⟩
  obtain ⟨p, hp, hl, hr⟩ := results_of_refused hS hw known (fun r hr x hx => ⟨r, hr, hx⟩) hlast refused _ (result hg) _ (result hg')
  rw [resultKey, resultKey, sets.flow]
  exact w'.bareKey_of_equal _ _ (Annot.equal_of_plain hp hl hr)

end

theorem last_round {n : Nat} (h : normalizeFamilies (n + 1) k w = .ok ⟨⟩ w') : ∃ v, normalizeRound k v = .ok false w' := by
  induction n generalizing w with
  | zero =>
    obtain ⟨changed, w₁, h₁, hrest⟩ := of_bind_ok h
    cases changed with
    | false =>
      cases hrest
      exact ⟨w, h₁⟩
    | true =>
      obtain ⟨u, w₂, -, hthrow⟩ := of_bind_ok hrest
      cases hthrow
  | succ n ih =>
    obtain ⟨changed, w₁, h₁, hrest⟩ := of_bind_ok h
    cases changed with
    | false =>
      cases hrest
      exact ⟨w, h₁⟩
    | true =>
      obtain ⟨u, w₂, -, hagain⟩ := of_bind_ok hrest
      exact ih hagain

/-- **Rows agree.**  When the families of calls are normalized, a last round was made that changed no parameter.  All
graphs of a row then have parameters of the same representations, where no parameter is a result; and a row of whose
graphs none stands in a later row has results of one representation, where the results fitted together before that
round. -/
theorem rows_agree (k : Knot) (n : Nat) (w w' : World) (h : normalizeFamilies (n + 1) k w = .ok ⟨⟩ w') : (∃ v, normalizeRound k v = .ok false w') ∧
    (Apart w'.prog.flow w'.callRows → ∀ row ∈ w'.callRows, ∀ g ∈ rowGraphs row, ∀ g' ∈ rowGraphs row, w'.paramKeys g = w'.paramKeys g') ∧
    ∀ v S τ, normalizeRound k v = .ok false w' → ¬ S.containers → S.world.Later v →
      AllKnown S τ v (fun x => ∃ row ∈ w'.callRows, x ∈ rowResults w' row) →
      ∀ before row after, w'.callRows = before ++ row :: after → (∀ r ∈ after, ∀ x ∈ rowResults w' row, x ∉ rowResults w' r) →
        ∀ g ∈ rowGraphs row, ∀ g' ∈ rowGraphs row, w'.resultKey g = w'.resultKey g' := by
  obtain ⟨v, hround⟩ := last_round h
  refine ⟨⟨v, hround⟩, fun apart => params_of_round hround apart, fun v S τ hround hS hv known before row after hrows hlast => ?_⟩
  exact results_of_round hround hS hv known hrows hlast

/-! ## Rows that share a graph -/

theorem generalize_eq {old a r : Annot} (hold : w.bound v = old) (hne : old ≠ .impossible)
    (hu : Ana.union old a k w = .ok r w) : generalize v a k w = .ok ⟨⟩ (w.bindTo v r) := by
  have hv : w.progress.bindings[v]? = some old := by
    unfold bound at hold
    cases h : w.progress.bindings[v]? with
    | none => exact absurd (by rw [← hold, h]; rfl) hne
    | some b => rw [← hold, h]; rfl
  have hlookup : bindingOf? v k w = .ok (some old) w := by rw [← hv]; rfl
  unfold generalize
  rw [bind_of_ok hlookup]
  dsimp only
  rw [bind_of_ok hu]
  rfl

section

variable {g g' : GraphId} {p p' : VarId} {a d : Annot} {w₁ w₂ : World}

theorem joinedParams_two (hg : w.prog.flow.argsOf g = [p]) (hg' : w.prog.flow.argsOf g' = [p']) (hp : w.bound p = a) (hp' : w.bound p' = a)
    (ha : unionOf [a, a] k w = .ok a w) : joinedParams [g, g'] k w = .ok [a] w := by
  have hcell (x : GraphId) (q : VarId) (hx : w.prog.flow.argsOf x = [q]) (hq : w.bound q = a) :
      (do bindingOrImpossible (.var (((← paramsOf x)[0]?).getD 0)) : Ana Annot) k w = .ok a w := by
    change EStateM.Result.ok (w.bound ((w.prog.flow.argsOf x)[0]?.getD 0)) w = _
    rw [hx]
    exact congrArg (EStateM.Result.ok · w) hq
  have hcells : ([g, g'].mapM fun x => do bindingOrImpossible (.var (((← paramsOf x)[0]?).getD 0)) : Ana (List Annot)) k w = .ok [a, a] w := by
    rw [mapM_cons, bind_of_ok (hcell g p hg hp), mapM_cons, bind_of_ok (bind_of_ok (hcell g' p' hg' hp'))]
    rfl
  have hparams : paramsOf (([g, g'].head?).getD 0) k w = .ok [p] w := by
    rw [← hg]
    rfl
  unfold joinedParams
  rw [bind_of_ok hparams]
  change ([0].mapM _ : Ana (List Annot)) k w = _
  rw [mapM_cons, bind_of_ok ((bind_of_ok hcells).trans ha)]
  rfl

theorem normalizeRow_two (hrow : rowGraphs row = [g, g']) (hg : w.prog.flow.argsOf g = [p]) (hg' : w.prog.flow.argsOf g' = [p']) (hp : w.bound p = a)
    (hp' : w.bound p' = a) (ha : unionOf [a, a] k w = .ok a w) (he : w.equal a a = true)
    (hd : unionOf [w.bound (w.prog.flow.returnVar g), w.bound (w.prog.flow.returnVar g')] k w = .ok d w)
    (h₁ : generalize (w.prog.flow.returnVar g) d k w = .ok ⟨⟩ w₁) (h₂ : generalize (w.prog.flow.returnVar g') d k w₁ = .ok ⟨⟩ w₂) :
    normalizeRow row k w = .ok false w₂ := by
  have hget : (MonadState.get : Ana World) k w = .ok w w := rfl
  have harity : checkArity [g, g'] k w = .ok ⟨⟩ w := by
    have hfind : [g'].find? (fun x => decide ((w.prog.flow.argsOf x).length ≠ (w.prog.flow.argsOf g).length)) = none := by
      simp [hg, hg']
    unfold checkArity
    rw [bind_of_ok hget]
    dsimp only
    rw [hfind]
    rfl
  have hkept (x : GraphId) (q : VarId) (hx : w.prog.flow.argsOf x = [q]) (hq : w.bound q = a) : entersAgain [a] x k w = .ok false w := by
    have hparams : paramsOf x k w = .ok [q] w := by
      rw [← hx]
      rfl
    unfold entersAgain
    rw [bind_of_ok hparams, bind_of_ok (bindingsOf_eq ..), bind_of_ok hget, map_singleton, hq, if_pos (by simp [he])]
    rfl
  have hsame : [g, g'].filterM (entersAgain [a]) k w = .ok [] w := by
    have hnone : [g, g'].filterAuxM (entersAgain [a]) [] k w = .ok [] w := by
      rw [List.filterAuxM, bind_of_ok (hkept g p hg hp), List.filterAuxM, bind_of_ok (hkept g' p' hg' hp')]
      rfl
    rw [List.filterM, bind_of_ok hnone]
    rfl
  have hset : ([g, g'].map w.prog.flow.returnVar).forM (fun v => generalize v d) k w = .ok ⟨⟩ w₂ := (bind_of_ok h₁).trans ((bind_of_ok h₂).trans rfl)
  unfold normalizeRow
  rw [hrow]
  exact (bind_of_ok harity).trans ((bind_of_ok (joinedParams_two hg hg' hp hp' ha)).trans
    ((bind_of_ok hsame).trans ((bind_of_ok hget).trans ((bind_of_ok (bindingsOf_eq ..)).trans ((bind_of_ok hd).trans (bind_of_ok hset))))))

end

/-- A graph of one parameter whose result is that of another block. -/
def plainGraph (name : String) (i : Nat) : Graph := { name, start := some (2 * i + 1), ret := 2 * i + 2, exc := 0 }

/-- Three functions, of which the first two are called at one place and the last two at another. -/
def uncalled : World where
  prog := { flow := {
    blocks := #[{ inputs := [1] }, { inputs := [2] }, { inputs := [3] }, { inputs := [4] }, { inputs := [5] }, { inputs := [6] }]
    graphs := #[plainGraph "f" 0, plainGraph "g" 1, plainGraph "h" 2] } }
  callPartition := { info := [(1, 0)] }
  callFamilies := #[{ descs := [1, 2, 3], tables := [({ count := 1, keys := [], star := false }, [[(1, 0), (2, 1)], [(2, 1), (3, 2)]])] }]

/-- All take an integer; the first two give truth values and the last one a number. -/
def crossed : World :=
  (((((uncalled.bindTo 1 (.someInt false)).bindTo 3 (.someInt false)).bindTo 5 (.someInt false)).bindTo 2 (.constBool true)).bindTo 4
    (.constBool false)).bindTo 6 (.constInt 2)

/-- The first row agrees. -/
def halfway : World := (crossed.bindTo 2 .someBool).bindTo 4 .someBool

/-- The second row agrees. -/
def uncrossed : World := (halfway.bindTo 4 (.intRange 0 3)).bindTo 6 (.intRange 0 3)

theorem rowGraphs_two (x y : DescId) (g g' : GraphId) (h : x ≤ y) (hne : g ≠ g') : rowGraphs [(x, g), (y, g')] = [g, g'] := by
  unfold rowGraphs
  rw [mergeSort_of_pairwise (by simp [h])]
  simp [eraseDups_cons, hne.symm]

theorem callRows_crossed : crossed.callRows = [[(1, 0), (2, 1)], [(2, 1), (3, 2)]] := by
  simp [callRows, Ana.callFamilies, crossed, bindTo, updateProgress, uncalled, Partition.infos, sortedTables]

theorem normalizeRound_crossed : normalizeRound Annot.idle crossed = .ok false uncrossed := by
  have first : normalizeRow [(1, 0), (2, 1)] Annot.idle crossed = .ok false halfway := by
    have p₁ : crossed.bound 1 = .someInt false := by simp [crossed, bound_bindTo]
    have p₃ : crossed.bound 3 = .someInt false := by simp [crossed, bound_bindTo]
    have r₂ : crossed.bound 2 = .constBool true := by simp [crossed, bound_bindTo]
    have r₄ : crossed.bound 4 = .constBool false := by simp [crossed, bound_bindTo]
    have r₄' : (crossed.bindTo 2 .someBool).bound 4 = .constBool false := by simp [crossed, bound_bindTo]
    have joined : unionOf [crossed.bound 2, crossed.bound 4] Annot.idle crossed = .ok .someBool crossed := by
      rw [r₂, r₄]
      rfl
    exact normalizeRow_two (rowGraphs_two 1 2 0 1 (by decide) (by decide)) rfl rfl p₁ p₃ rfl rfl joined
      (generalize_eq r₂ nofun rfl) (generalize_eq r₄' nofun rfl)
  have second : normalizeRow [(2, 1), (3, 2)] Annot.idle halfway = .ok false uncrossed := by
    have p₃ : halfway.bound 3 = .someInt false := by simp [halfway, crossed, bound_bindTo]
    have p₅ : halfway.bound 5 = .someInt false := by simp [halfway, crossed, bound_bindTo]
    have r₄ : halfway.bound 4 = .someBool := by simp [halfway, bound_bindTo]
    have r₆ : halfway.bound 6 = .constInt 2 := by simp [halfway, crossed, bound_bindTo]
    have r₆' : (halfway.bindTo 4 (.intRange 0 3)).bound 6 = .constInt 2 := by simp [halfway, crossed, bound_bindTo]
    have joined : unionOf [halfway.bound 4, halfway.bound 6] Annot.idle halfway = .ok (.intRange 0 3) halfway := by
      rw [r₄, r₆]
      rfl
    exact normalizeRow_two (rowGraphs_two 2 3 1 2 (by decide) (by decide)) rfl rfl p₃ p₅ rfl rfl joined
      (generalize_eq r₄ nofun rfl) (generalize_eq r₆' nofun rfl)
  have both : crossed.callRows.filterM normalizeRow Annot.idle crossed = .ok [] uncrossed := by
    rw [callRows_crossed, List.filterM]
    have hnone : List.filterAuxM normalizeRow [[(1, 0), (2, 1)], [(2, 1), (3, 2)]] [] Annot.idle crossed = .ok [] uncrossed := by
      rw [List.filterAuxM, bind_of_ok first, List.filterAuxM, bind_of_ok second]
      rfl
    rw [bind_of_ok hnone]
    rfl
  exact bind_of_ok both

theorem normalizeFamilies_crossed : normalizeFamilies 10 Annot.idle crossed = .ok ⟨⟩ uncrossed := bind_of_ok normalizeRound_crossed

theorem callRows_uncrossed : uncrossed.callRows = [[(1, 0), (2, 1)], [(2, 1), (3, 2)]] := by
  rw [uncrossed, callRows_bindTo, callRows_bindTo, halfway, callRows_bindTo, callRows_bindTo, callRows_crossed]

def crossedScope : Annot.Scope where
  world := crossed
  types _ := (none, [])
  doubles _ := False
  containers := False
  characters := False
  nothing := False
  ordered := nofun
  numEq := Annot.numEq_of_false
  apart h := h.1

/-- The three functions take the same, and the second and the third give the same. -/
theorem rows_agree_crossed : uncrossed.paramKeys 0 = uncrossed.paramKeys 1 ∧ uncrossed.paramKeys 1 = uncrossed.paramKeys 2 ∧
    uncrossed.resultKey 1 = uncrossed.resultKey 2 := by
  obtain ⟨-, params, results⟩ := rows_agree Annot.idle 9 crossed uncrossed normalizeFamilies_crossed
  have first : rowGraphs [(1, 0), (2, 1)] = [0, 1] := rowGraphs_two 1 2 0 1 (by decide) (by decide)
  have second : rowGraphs [(2, 1), (3, 2)] = [1, 2] := rowGraphs_two 2 3 1 2 (by decide) (by decide)
  have three {row : Row} {g : Nat} (hrow : row ∈ uncrossed.callRows) (hg : g ∈ rowGraphs row) : g < 3 := by
    simp only [callRows_uncrossed, mem_cons, not_mem_nil, or_false] at hrow
    rcases hrow with rfl | rfl
    · simp only [first, mem_cons, not_mem_nil, or_false] at hg
      omega
    · simp only [second, mem_cons, not_mem_nil, or_false] at hg
      omega
  have apart : Apart uncrossed.prog.flow uncrossed.callRows := by
    have apart : ∀ g < 3, ∀ g' < 3, uncrossed.prog.flow.returnVar g' ∉ uncrossed.prog.flow.argsOf g := by decide
    exact fun row hrow g hg row' hrow' g' hg' => apart g (three hrow hg) g' (three hrow' hg')
  have known : AllKnown crossedScope (fun _ => .object) crossed fun x => ∃ row ∈ uncrossed.callRows, x ∈ rowResults uncrossed row := by
    rintro x ⟨row, hrow, hx⟩
    obtain ⟨g, hg, rfl⟩ := mem_map.1 hx
    match g, three hrow hg with
    | 0, _ =>
      have h : crossed.bound 2 = .constBool true := by simp [crossed, bound_bindTo]
      change Annot.Known _ _ _ (crossed.bound 2)
      rw [h]
      exact ⟨.bool _, trivial⟩
    | 1, _ =>
      have h : crossed.bound 4 = .constBool false := by simp [crossed, bound_bindTo]
      change Annot.Known _ _ _ (crossed.bound 4)
      rw [h]
      exact ⟨.bool _, trivial⟩
    | 2, _ =>
      have h : crossed.bound 6 = .constInt 2 := by simp [crossed, bound_bindTo]
      change Annot.Known _ _ _ (crossed.bound 6)
      rw [h]
      exact ⟨.int (IntFact.proper_make ⟨⟨by decide, by decide⟩, by decide, by decide⟩), trivial⟩
  refine ⟨params apart [(1, 0), (2, 1)] ?_ 0 ?_ 1 ?_, params apart [(2, 1), (3, 2)] ?_ 1 ?_ 2 ?_,
    results crossed crossedScope _ normalizeRound_crossed id (.refl _) known [[(1, 0), (2, 1)]] [(2, 1), (3, 2)] [] callRows_uncrossed
      nofun 1 ?_ 2 ?_⟩
  all_goals simp [callRows_uncrossed, first, second]

/-- **A row that is settled too early:** the result of the second function is a number once the second row has been
looked at, that of the first function is a truth value still, and no further round is made. -/
theorem rows_disagree : normalizeFamilies 10 Annot.idle crossed = .ok ⟨⟩ uncrossed ∧ [(1, 0), (2, 1)] ∈ uncrossed.callRows ∧
    rowGraphs [(1, 0), (2, 1)] = [0, 1] ∧ uncrossed.resultKey 0 ≠ uncrossed.resultKey 1 := by
  refine ⟨normalizeFamilies_crossed, by simp [callRows_uncrossed], rowGraphs_two 1 2 0 1 (by decide) (by decide), ?_⟩
  have r₂ : uncrossed.bound 2 = .someBool := by simp [uncrossed, halfway, bound_bindTo]
  have r₄ : uncrossed.bound 4 = .intRange 0 3 := by simp [uncrossed, halfway, bound_bindTo]
  change (uncrossed.bound 2).bareKey ≠ (uncrossed.bound 4).bareKey
  rw [r₂, r₄]
  decide

end Typing
end FlowCompiler
