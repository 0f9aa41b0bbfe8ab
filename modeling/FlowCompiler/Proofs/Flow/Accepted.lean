import FlowCompiler.Proofs.Database.Closure

/-!
# Graphs that are accepted

The check takes the blocks of a graph one by one and stops at the first fault.  What a step requires is said of the block alone
(`Formed`, `Forked`), but for the variables that it defines: nothing that has been met before may define them (`Fresh`).  A run
requires the same of all blocks, and that they define no variable twice.
-/

namespace FlowCompiler.FlowStore

open List

variable {s : FlowStore} {g : GraphId} {b : BlockId} {name : String} {t t' : Scope} {v : VarId} {vs : List VarId} {ops : List FlowOp}

/-- The variables that a block defines, in order. -/
def definitions (s : FlowStore) (b : BlockId) : List VarId := (s.block b).inputs ++ (s.block b).ops.filterMap FlowOp.result

/-- Every argument is known, or the result of an operation before. -/
def Scoped (known : VarId → Prop) : List FlowOp → Prop
  | [] => True
  | op :: ops => (∀ v, .var v ∈ op.args → known v) ∧ Scoped (fun v => op.result = some v ∨ known v) ops

/-- What is required of every block. -/
structure Formed (s : FlowStore) (b : BlockId) : Prop where
  nodup : (s.definitions b).Nodup
  ordered : Scoped (· ∈ (s.block b).inputs) (s.block b).ops
  final : (s.block b).isReturn ∨ (s.block b).isExcept → (s.block b).exits = []
  switch : ∀ v, (s.block b).exitSwitch = some (.var v) → v ∈ s.definitions b
  raising : (s.block b).canRaise → (s.block b).ops ≠ []
  plain : (s.block b).exitSwitch = none → (s.block b).exits.length ≤ 1
  arity : ∀ l ∈ (s.block b).exits, (s.link l).args.length = (s.block (s.link l).target).inputs.length
  passed : ∀ l ∈ (s.block b).exits, ∀ v, .var v ∈ (s.link l).args →
    some (.var v) = (s.link l).lastException ∨ some (.var v) = (s.link l).lastExcValue ∨ v ∈ s.definitions b

/-- A switch that is not for exceptions has two exits at least. -/
def Forked (s : FlowStore) (b : BlockId) : Prop := (s.block b).exitSwitch.isSome → (s.block b).canRaise = false → 2 ≤ (s.block b).exits.length

/-! ## Steps of the check -/

theorem bind_eq_ok {α β : Type} {x : Except Failure α} {f : α → Except Failure β} {y : β} : x >>= f = .ok y ↔ ∃ a, x = .ok a ∧ f a = .ok y := by
  cases x <;> simp [bind, Except.bind]

variable {ws : List VarId} {u : Unit} {text : String}

theorem forM_eq_ok {α : Type} {xs : List α} {f : α → Except Failure Unit} : xs.forM f = .ok u ↔ ∀ x ∈ xs, f x = .ok () := by
  induction xs with
  | nil => simp [pure, Except.pure]
  | cons x xs ih =>
    change (f x >>= fun _ => xs.forM f) = _ ↔ _
    rw [bind_eq_ok, forall_mem_cons, ← ih]
    exact ⟨fun ⟨_, h⟩ => h, fun h => ⟨_, h⟩⟩

theorem refuse_eq_ok {c : Prop} [Decidable c] {m : Except Failure Unit} :
    (if c then malformed name text >>= fun _ : Unit => m else m) = .ok () ↔ ¬ c ∧ m = .ok () := by
  by_cases h : c <;> simp [h, malformed, bind, Except.bind]

theorem refuse_last {c : Prop} [Decidable c] : (if c then malformed name text else pure ()) = .ok () ↔ ¬ c := by
  by_cases h : c <;> simp [h, malformed, pure, Except.pure]

/-- The scope after some definitions. -/
def enter (b : BlockId) (t : Scope) (vs : List VarId) : Scope := (vs.reverse.map (·, b) ++ t.1, vs.reverse ++ t.2)

theorem enter_append : enter b t (vs ++ ws) = enter b (enter b t vs) ws := by simp [enter]

/-- Different variables that have not been defined. -/
def Fresh (t : Scope) (vs : List VarId) : Prop := vs.Nodup ∧ ∀ v ∈ vs, v ∉ t.1.map Prod.fst

theorem fresh_append : Fresh t (vs ++ ws) ↔ Fresh t vs ∧ Fresh (enter b t vs) ws := by
  simp only [Fresh, enter, nodup_append, map_append, map_map, mem_append, mem_map, mem_reverse, Function.comp]
  grind

theorem checkUse_eq_ok {what : String} {a : Operand} : s.checkUse name what b t a = .ok u ↔ ∀ v, a = .var v → v ∈ t.2 := by
  cases a <;> simp [checkUse, malformed]

theorem checkDef_eq_ok : s.checkDef name b t v = .ok t' ↔ Fresh t [v] ∧ t' = enter b t [v] := by
  have fresh : Fresh t [v] ↔ ¬ (t.1.lookup v).isSome := by simp [Fresh]
  rw [fresh, checkDef]
  cases t.1.lookup v with
  | none => simp [enter, eq_comm]
  | some other => by_cases h : other = b <;> simp [h, malformed]

theorem checkDefs_eq_ok : vs.foldlM (s.checkDef name b) t = .ok t' ↔ Fresh t vs ∧ t' = enter b t vs := by
  induction vs generalizing t with
  | nil => simp [Fresh, enter, pure, Except.pure, eq_comm]
  | cons v vs ih =>
    rw [foldlM_cons, bind_eq_ok, ← singleton_append, fresh_append (b := b), enter_append, and_assoc, ← ih]
    simp only [checkDef_eq_ok, and_assoc, exists_and_left, exists_eq_left]

theorem checkOp_eq_ok {op : FlowOp} : s.checkOp name b t op = .ok t' ↔
    (∀ v, .var v ∈ op.args → v ∈ t.2) ∧ Fresh t op.result.toList ∧ t' = enter b t op.result.toList := by
  rw [← show op.result.toList.foldlM (s.checkDef name b) t = .ok t' ↔ _ from checkDefs_eq_ok]
  unfold checkOp
  rw [Ana.forIn_yield (fun _ _ => rfl), bind_eq_ok]
  simp only [forM_eq_ok, checkUse_eq_ok, exists_and_left, exists_const]
  refine and_congr ⟨fun h v hv => h _ hv v rfl, fun h a ha v e => h v (e ▸ ha)⟩ ?_
  cases op.result with
  | none => exact .rfl
  | some v => simp [foldlM_cons]

theorem checkOps_eq_ok : ops.foldlM (s.checkOp name b) t = .ok t' ↔
    Scoped (· ∈ t.2) ops ∧ Fresh t (ops.filterMap FlowOp.result) ∧ t' = enter b t (ops.filterMap FlowOp.result) := by
  induction ops generalizing t with
  | nil => simp [Fresh, enter, pure, Except.pure, eq_comm, Scoped]
  | cons op ops ih =>
    have results : (op :: ops).filterMap FlowOp.result = op.result.toList ++ ops.filterMap FlowOp.result := by
      rw [filterMap_cons]
      cases op.result <;> rfl
    have known : (· ∈ (enter b t op.result.toList).2) = fun v => op.result = some v ∨ v ∈ t.2 := by simp [enter]
    rw [foldlM_cons, bind_eq_ok, results, fresh_append (b := b), enter_append, Scoped, ← known]
    simp only [checkOp_eq_ok, ih, and_assoc, exists_and_left, exists_eq_left]
    tauto

theorem checkSwitch_eq_ok : s.checkSwitch name b t = .ok u ↔
    (((s.block b).isReturn ∨ (s.block b).isExcept → (s.block b).exits = []) ∧ (∀ v, (s.block b).exitSwitch = some (.var v) → v ∈ t.2) ∧
    ((s.block b).canRaise → (s.block b).ops ≠ []) ∧ ((s.block b).exitSwitch = none → (s.block b).exits.length ≤ 1)) ∧ s.Forked b := by
  unfold checkSwitch Forked
  rw [refuse_eq_ok, Bool.and_eq_true, Bool.or_eq_true, Bool.not_eq_true', List.isEmpty_eq_false_iff]
  cases hsw : (s.block b).exitSwitch with
  | none =>
    have calm : (s.block b).canRaise = false := by rw [Block.canRaise, hsw]
    rw [refuse_last, Block.isFinal, calm]
    rcases (s.block b).exits with _ | ⟨_, _ | ⟨_, _⟩⟩ <;> simp
  | some sw =>
    by_cases hr : (s.block b).canRaise = true
    · -- the mark of exceptions is a constant, which needs no definition
      have constant (v : VarId) : sw ≠ .var v := by
        rintro rfl
        simp [Block.canRaise, hsw] at hr
      simp [refuse_last, hr, constant, List.isEmpty_iff]
    · have calm : (!(s.block b).canRaise) = true := by simpa using hr
      dsimp only
      rw [if_pos calm, bind_eq_ok]
      simp only [checkUse_eq_ok, refuse_last, exists_and_left, exists_const, hr, Option.some.injEq, Option.isSome_some, not_lt]
      tauto

theorem checkLink_eq_ok {l : Link} : s.checkLink name b t l = .ok () ↔ l.args.length = (s.block l.target).inputs.length ∧
    ∀ v, .var v ∈ l.args → some (.var v) = l.lastException ∨ some (.var v) = l.lastExcValue ∨ v ∈ t.2 := by
  let use (a : Operand) := if some a ≠ l.lastException && some a ≠ l.lastExcValue then s.checkUse name "link" b t a else pure ()
  have each (a : Operand) : use a = .ok () ↔ ∀ v, a = .var v → some a = l.lastException ∨ some a = l.lastExcValue ∨ v ∈ t.2 := by
    dsimp only [use]
    split <;> simp only [checkUse_eq_ok, pure, Except.pure] <;> grind
  unfold checkLink
  rw [refuse_eq_ok, Ana.forIn_yield (f := use) (fun a u => by dsimp only [use]; split <;> rfl), not_not, bind_eq_ok]
  simp only [forM_eq_ok, exists_and_left, exists_const, each]
  exact and_congr_right fun _ => ⟨fun h v hv => h.1 _ hv v rfl, fun h => ⟨fun a ha v e => e ▸ h v (e ▸ ha), rfl⟩⟩

theorem checkBlock_eq_ok {ds ds' : Definitions} : s.checkBlock name ds b = .ok ds' ↔
    (s.Formed b ∧ s.Forked b) ∧ Fresh (ds, []) (s.definitions b) ∧ ds' = (enter b (ds, []) (s.definitions b)).1 := by
  have inputs (v : VarId) : v ∈ (enter b (ds, []) (s.block b).inputs).2 ↔ v ∈ (s.block b).inputs := by simp [enter]
  have known (v : VarId) : v ∈ (enter b (ds, []) (s.definitions b)).2 ↔ v ∈ s.definitions b := by simp [enter]
  have fresh : Fresh (ds, []) (s.definitions b) ↔ _ := fresh_append (b := b)
  unfold checkBlock
  simp only [bind_eq_ok, checkDefs_eq_ok, checkOps_eq_ok, checkSwitch_eq_ok, Ana.forIn_yield (fun _ _ => rfl), forM_eq_ok, checkLink_eq_ok, and_assoc,
    exists_and_left, exists_eq_left, exists_const, ← enter_append, ← definitions.eq_1, known, inputs, fresh, Except.ok.injEq]
  constructor
  · rintro ⟨h₁, ordered, h₂, final, switch, raising, plain, forked, links, rfl⟩
    exact ⟨⟨(fresh.2 ⟨h₁, h₂⟩).1, ordered, final, switch, raising, plain, fun l hl => (links l hl).1, fun l hl => (links l hl).2⟩,
      forked, h₁, h₂, rfl⟩
  · rintro ⟨h, forked, h₁, h₂, rfl⟩
    exact ⟨h₁, h.ordered, h₂, h.final, h.switch, h.raising, h.plain, forked, fun l hl => ⟨h.arity l hl, h.passed l hl⟩, rfl⟩

/-! ## Runs of the check -/

theorem checkBlocks_eq_ok {ds : Definitions} {bs : List BlockId} : (∃ ds', bs.foldlM (s.checkBlock name) ds = .ok ds') ↔
    (∀ b ∈ bs, s.Formed b ∧ s.Forked b) ∧ Fresh (ds, []) (bs.flatMap s.definitions) := by
  induction bs generalizing ds with
  | nil => simp [Fresh, pure, Except.pure]
  | cons b bs ih =>
    have later : Fresh (enter b (ds, []) (s.definitions b)) (bs.flatMap s.definitions) ↔ Fresh ((enter b (ds, []) (s.definitions b)).1, []) _ := .rfl
    simp only [foldlM_cons, bind_eq_ok, checkBlock_eq_ok]
    rw [exists_comm]
    simp only [and_assoc, exists_and_left, exists_eq_left, ih, forall_mem_cons, flatMap_cons, fresh_append (b := b), later]
    tauto

theorem nodup_reachAux {fuel : Nat} {stack seen : List BlockId} (h : seen.Nodup) : (s.reachAux fuel stack seen).Nodup := by
  induction fuel generalizing stack seen with
  | zero => exact nodup_reverse.2 h
  | succ fuel ih =>
    cases stack with
    | nil => exact nodup_reverse.2 h
    | cons c stack =>
      by_cases met : c ∈ seen
      · rw [reachAux_seen met]
        exact ih h
      · rw [reachAux_new met]
        exact ih (nodup_cons.2 ⟨met, h⟩)

theorem nodup_blocksOf : (s.blocksOf g).Nodup := by
  unfold blocksOf
  split
  · exact nodup_reachAux nodup_nil
  · exact nodup_nil

/-- What is required of a graph: no two of its blocks define the same variable. -/
structure WellFormed (s : FlowStore) (g : GraphId) : Prop where
  start : (s.graph g).start.isSome
  ret : (s.block (s.graph g).ret).inputs.length = 1
  formed : ∀ b, BlockOf s g b → s.Formed b
  once : ∀ b c, BlockOf s g b → BlockOf s g c → ∀ v ∈ s.definitions b, v ∈ s.definitions c → b = c

theorem checkGraph_eq_ok : s.checkGraph g = .ok () ↔ WellFormed s g ∧ ∀ b, BlockOf s g b → s.Forked b := by
  unfold checkGraph
  rw [refuse_eq_ok, refuse_eq_ok, bind_eq_ok]
  simp only [and_true, checkBlocks_eq_ok, ← mem_blocksOf, Option.isNone_iff_eq_none, ← Option.isSome_iff_ne_none, not_not, ne_eq,
    Fresh, nodup_flatMap]
  constructor
  · rintro ⟨start, ret, blocks, ⟨-, apart⟩, -⟩
    refine ⟨⟨start, ret, fun b hb => (blocks b (mem_blocksOf.2 hb)).1, fun b c hb hc v hv hv' => by_contra fun ne => ?_⟩, fun b hb => (blocks b hb).2⟩
    have : Std.Symm (Function.onFun List.Disjoint s.definitions) := ⟨fun _ _ h => h.symm⟩
    exact apart.forall (mem_blocksOf.2 hb) (mem_blocksOf.2 hc) ne hv hv'
  · rintro ⟨h, forked⟩
    have formed (b : BlockId) (hb : b ∈ s.blocksOf g) := h.formed b (mem_blocksOf.1 hb)
    refine ⟨h.start, h.ret, fun b hb => ⟨formed b hb, forked b hb⟩, ⟨fun b hb => (formed b hb).nodup, ?_⟩, by simp⟩
    exact nodup_blocksOf.pairwise_of_forall_ne fun b hb c hc ne v hv hv' => ne (h.once b c (mem_blocksOf.1 hb) (mem_blocksOf.1 hc) v hv hv')

/-- One exit of a block is for true, and one for false. -/
def Cased (s : FlowStore) (b : BlockId) : Prop := ∀ x, ((s.block b).exits.map fun l => (s.link l).exitCase).count (.bool x) = 1

/-- The exits of a switch are for truth values, each for another one. -/
structure Branches (s : FlowStore) (b : BlockId) : Prop where
  switch : (s.block b).exitSwitch.isSome
  calm : (s.block b).canRaise = false
  truths : ∀ l ∈ (s.block b).exits, ∃ x, (s.link l).exitCase = .bool x
  nodup : ((s.block b).exits.map fun l => (s.link l).exitCase).Nodup

/-- Of two values, two exits that differ leave none out. -/
theorem Branches.cased (h : s.Branches b) (forked : s.Forked b) : s.Cased b := by
  have two := forked h.switch h.calm
  intro x
  refine count_eq_one_of_mem h.nodup (by_contra fun left => ?_)
  have only : (s.block b).exits.map (fun l => (s.link l).exitCase) ⊆ [.bool !x] := by
    intro c hc
    obtain ⟨l, hl, rfl⟩ := mem_map.1 hc
    obtain ⟨y, hy⟩ := h.truths l hl
    have : y ≠ x := fun e => left (e ▸ hy ▸ hc)
    simp [hy, Bool.eq_not.2 this]
  have := (h.nodup.subperm only).length_le
  simp only [length_map, length_singleton] at this
  omega

/-- **The check accepts well-formed graphs, and no others.**  The switches of the graphs have two exits at least, and where these are
for truth values that differ, one is for true and one for false. -/
theorem accepts_well_formed (s : FlowStore) (g : GraphId) :
    (s.checkGraph g = .ok () → WellFormed s g ∧ ∀ b, BlockOf s g b → s.Forked b ∧ (s.Branches b → s.Cased b)) ∧
    (WellFormed s g → (∀ b, BlockOf s g b → s.Forked b) → s.checkGraph g = .ok ()) := by
  refine ⟨fun h => ?_, fun h forked => checkGraph_eq_ok.2 ⟨h, forked⟩⟩
  obtain ⟨formed, forked⟩ := checkGraph_eq_ok.1 h
  exact ⟨formed, fun b hb => ⟨forked b hb, fun branches => branches.cased (forked b hb)⟩⟩

/-- A function that returns its argument, after a switch with some cases. -/
def switching (cases : List Datum) : FlowStore where
  blocks := #[{ inputs := [1], exitSwitch := some (.var 1), exits := List.range cases.length }, { inputs := [2], isReturn := true }]
  links := (cases.map fun exitCase => { args := [.var 1], target := 2, exitCase }).toArray
  graphs := #[{ name := "f", start := some 1, ret := 2, exc := 3 }]

/-- A switch on truth values is accepted, and has an exit for each. -/
theorem accepts_well_formed_branch : (switching [.bool true, .bool false]).checkGraph 0 = .ok () ∧ (switching [.bool true, .bool false]).Branches 1 ∧
    WellFormed (switching [.bool true, .bool false]) 0 ∧ (switching [.bool true, .bool false]).Cased 1 := by
  have accepts := accepts_well_formed (switching [.bool true, .bool false]) 0
  have branches : (switching [.bool true, .bool false]).Branches 1 := ⟨rfl, rfl, by decide, by decide⟩
  have ⟨h, each⟩ := accepts.1 rfl
  have first : BlockOf (switching [.bool true, .bool false]) 0 1 := mem_blocksOf.1 (by decide)
  exact ⟨accepts.2 h fun b hb => (each b hb).1, branches, h, (each 1 first).2 branches⟩

/-- Nothing reads what the exits are for: a switch may have two exits for true and none for false.  A switch with one exit is refused,
even if the graph is well-formed. -/
theorem exits_counted_only : ((switching [.bool true, .bool true]).checkGraph 0 = .ok () ∧ ¬ (switching [.bool true, .bool true]).Cased 1) ∧
    WellFormed (switching [.int 1]) 0 ∧ (switching [.int 1]).checkGraph 0 ≠ .ok () := by
  have blocks {b : BlockId} (hb : BlockOf (switching [.int 1]) 0 b) : b = 1 ∨ b = 2 := mem_pair.1 (mem_blocksOf.2 hb)
  refine ⟨⟨rfl, fun h => absurd (h false) (by decide)⟩, ⟨rfl, rfl, fun b hb => ?_, fun b c hb hc => ?_⟩, nofun⟩
  · rcases blocks hb with rfl | rfl <;> constructor <;> simp [switching, block, link, definitions, Scoped, Block.canRaise]
  · rcases blocks hb with rfl | rfl <;> rcases blocks hc with rfl | rfl <;> decide

end FlowCompiler.FlowStore
