import FlowCompiler.Proofs.Steps.Transfers

/-!
# Entering a block

Entering a block either changes no binding, or it binds all its inputs and has the block wait: the first time to what is
passed, later to the unions of what they were bound to with what is passed.
-/

namespace FlowCompiler

open Std.HashMap

variable {w w' w₁ w₂ : World} {k : Knot}

/-- Variables are bound one after the other. -/
def World.bindAll (w : World) (xs : List (VarId × Annot)) : World :=
  w.updateProgress fun p => { p with bindings := xs.foldl (fun m x => m.insert x.1 x.2) p.bindings }

/-- The inputs of a block are bound and the block waits, between idle changes. -/
def World.Entered (w w' : World) (b : BlockId) : Prop :=
  ∃ w₁ cells, w.Idle w₁ ∧ (w₁.bindAll ((w.prog.flow.block b).inputs.zip cells)).Idle w' ∧ b ∈ w'.progress.pending

namespace Ana

theorem bindInputs_ok (b : BlockId) (inputs : List VarId) (cells : List Annot) (k : Knot) (w : World) :
    ∃ w', bindInputs b inputs cells k w = .ok ⟨⟩ w' ∧ (w.bindAll (inputs.zip cells)).Idle w' ∧ w'.progress.annotated[b]? = some none := by
  have all (xs : List (VarId × Annot)) (w : World) : (xs.forM fun x => bindVar x.1 x.2 : Ana PUnit) k w = .ok ⟨⟩ (w.bindAll xs) := by
    induction xs generalizing w with
    | nil => rfl
    | cons x xs ih => exact ih _
  have loop : bindInputs b inputs cells = ((inputs.zip cells).forM fun x => bindVar x.1 x.2) >>= fun _ => setAnnotated b none :=
    congrArg (· >>= fun _ => setAnnotated b none) (forIn_yield (fun _ _ => rfl) _)
  rw [loop, bind_of_ok (all ..)]
  exact ⟨_, rfl, .updateProgress (fun _ => rfl) (fun _ => rfl) (fun h => mem_insert.2 (.inr h)) id, getElem?_insert_self⟩

/-- What follows when the inputs of a block have been looked at: it waits unless it has been analysed. -/
def schedule? (g : GraphId) (b : BlockId) : Ana Unit := do
  match (← get).progress.annotated[b]? with
  | some (some _) => pure ()
  | _ => schedule g b

instance Along.schedule? {R : World → World → Prop} [Frame R] (g : GraphId) (b : BlockId) : Along R k (.schedule? g b) := by
  refine seq fun w => ?_
  split <;> infer_instance

theorem schedule?_waits {b : BlockId} (h : w.progress.annotated[b]? = some none) (g : GraphId) :
    b ∈ ((schedule? g b).after k w).progress.pending := by
  change b ∈ (after (match w.progress.annotated[b]? with
    | some (some _) => pure ()
    | _ => schedule g b : Ana Unit) k w).progress.pending
  rw [h]
  change b ∈ (if w.progress.pending.contains b then w.progress else
    { w.progress with pending := w.progress.pending.insert b g, queueBack := b :: w.progress.queueBack }).pending
  split
  · rename_i h
    exact mem_iff_contains.2 h
  · exact mem_insert_self

theorem entered_of_bind (hw : w.Idle w₁) (g : GraphId) (b : BlockId) (cells : List Annot) :
    w.Entered ((bindInputs b (w.prog.flow.block b).inputs cells >>= fun _ => schedule? g b).after k w₁) b := by
  obtain ⟨w₂, e, hbound, hset⟩ := bindInputs_ok b (w.prog.flow.block b).inputs cells k w₁
  have hsched : w₂.Idle ((schedule? g b).after k w₂) := Along.to_after w₂
  rw [after_bind_of_ok e]
  exact ⟨w₁, cells, hw, hbound.trans hsched, schedule?_waits hset g⟩

/-- What each input of a block is bound to, and whether it grew. -/
def mergeInput (here : PosKey) (x : VarId × Annot) : Ana (Annot × Bool) := located here do
  let old := (← bindingOf? x.1).getD .impossible
  let u ← union old x.2
  checkTop old x.2 u
  pure (u, !(← get).equal u old)

instance Along.mergeInput {R : World → World → Prop} [Frame R] (here : PosKey) (x : VarId × Annot) : Along R k (.mergeInput here x) := by
  unfold Ana.mergeInput
  infer_instance

theorem mergeInputs_enters (hw : w.Idle w₁) (g : GraphId) (b : BlockId) (cells : List Annot) :
    w.Idle ((mergeInputs g b (w.prog.flow.block b).inputs cells >>= fun _ => schedule? g b).after k w₁) ∨
      w.Entered ((mergeInputs g b (w.prog.flow.block b).inputs cells >>= fun _ => schedule? g b).after k w₁) b := by
  have merging : mergeInputs g b (w.prog.flow.block b).inputs cells = (do
      let merged ← ((w.prog.flow.block b).inputs.zip cells).mapM (mergeInput { graph := some g, block := some b, index := -1 })
      if merged.any Prod.snd then bindInputs b (w.prog.flow.block b).inputs (merged.map Prod.fst)) := rfl
  rw [merging, bind_assoc]
  refine after_bind (P := fun w' => w.Idle w' ∨ w.Entered w' b) (fun merged w₂ e => ?_) fun _ _ e => .inl (hw.trans (Along.of_error _ e))
  have idle : w.Idle w₂ := hw.trans (Along.of_ok _ e)
  split
  · exact .inr (entered_of_bind idle g b _)
  · have rest : w₂.Idle ((pure () >>= fun _ => schedule? g b : Ana Unit).after k w₂) := Along.to_after w₂
    exact .inl (idle.trans rest)

/-- **Entering a block** changes no binding, or it binds the inputs of the block and has it wait. -/
theorem addPendingBlock_enters (g : GraphId) (b : BlockId) (cells : List Annot) (k : Knot) (w : World) :
    w.Idle ((addPendingBlock g b cells).after k w) ∨ w.Entered ((addPendingBlock g b cells).after k w) b := by
  have enter {w₁ : World} (hw : w.Idle w₁) : w.Idle ((do
      if w.progress.annotated.contains b then mergeInputs g b (w.prog.flow.block b).inputs cells
      else bindInputs b (w.prog.flow.block b).inputs cells
      schedule? g b : Ana Unit).after k w₁) ∨ w.Entered ((do
      if w.progress.annotated.contains b then mergeInputs g b (w.prog.flow.block b).inputs cells
      else bindInputs b (w.prog.flow.block b).inputs cells
      schedule? g b : Ana Unit).after k w₁) b := by
    split
    · exact mergeInputs_enters hw g b cells
    · exact .inr (entered_of_bind hw g b cells)
  unfold addPendingBlock
  rw [after_get]
  dsimp only
  split
  · refine after_bind (P := fun w' => w.Idle w' ∨ w.Entered w' b) ?_ fun _ _ e => .inl (Along.of_error _ e)
    intro _ _ e
    cases e
  · split
    · exact enter (.updateProgress (fun _ => rfl) (fun _ => rfl) id id)
    · exact enter (.refl w)

/-- **Widening a binding** binds the variable, or it fails before anything is bound. -/
theorem setBinding_binds (v : VarId) (a : Annot) (k : Knot) (w : World) : ∃ w₁, w.Idle w₁ ∧ ((setBinding v a).after k w = w₁ ∨
    ∃ u, (setBinding v a).after k w = w₁.bindTo v u) := by
  have reading (f : Option Annot → Ana Unit) : (bindingOf? v >>= f).after k w = (f w.progress.bindings[v]?).after k w := rfl
  unfold setBinding
  rw [reading]
  cases w.progress.bindings[v]? with
  | none => exact ⟨w, .refl w, .inr ⟨a, rfl⟩⟩
  | some old =>
    refine after_bind (P := fun w' => ∃ w₁, w.Idle w₁ ∧ (w' = w₁ ∨ ∃ u, w' = w₁.bindTo v u)) (fun u w₁ hu => ?_)
      fun _ w₁ e => ⟨w₁, Along.of_error _ e, .inl rfl⟩
    have hw₁ : w.Idle w₁ := Along.of_ok _ hu
    refine after_bind (P := fun w' => ∃ w₁, w.Idle w₁ ∧ (w' = w₁ ∨ ∃ u, w' = w₁.bindTo v u)) (fun _ w₂ e => ?_)
      fun _ w₂ e => ⟨w₂, hw₁.trans (Along.of_error _ e), .inl rfl⟩
    exact ⟨w₂, hw₁.trans (Along.of_ok _ e), .inr ⟨u, rfl⟩⟩

end Ana
end FlowCompiler
