/-!
# What a step keeps

A step keeps what is seen of a state when that is the same afterwards, also when the step fails.  This carries over from the parts of a
step to the whole (`Keeps`), so that it is enough to look at the places where the state is changed.  In the same way a step leads along a
relation between states (`Leads`), or succeeds from every state (`Sure`).
-/

namespace FlowCompiler.Trace

variable {ε σ V α β γ : Type}

/-- The state after a step, whether it succeeds or fails. -/
def after (m : EStateM ε σ α) (s : σ) : σ :=
  match m s with
  | .ok _ s' => s'
  | .error _ s' => s'

variable {f : α → EStateM ε σ β} {s s' : σ} {a : α}

theorem after_of_ok {m : EStateM ε σ α} (h : m s = .ok a s') : after m s = s' := by rw [after, h]

theorem after_of_error {m : EStateM ε σ α} {e : ε} (h : m s = .error e s') : after m s = s' := by rw [after, h]

theorem bind_of_ok {m : EStateM ε σ α} (h : m s = .ok a s') : (m >>= f) s = f a s' := by
  change EStateM.bind m f s = _
  rw [EStateM.bind, h]

theorem bind_of_error {m : EStateM ε σ α} {e : ε} (h : m s = .error e s') : (m >>= f) s = .error e s' := by
  change EStateM.bind m f s = _
  rw [EStateM.bind, h]

theorem of_bind_ok {m : EStateM ε σ α} {s s'' : σ} {b : β} (h : (m >>= f) s = .ok b s'') : ∃ a s', m s = .ok a s' ∧ f a s' = .ok b s'' := by
  change EStateM.bind m f s = _ at h
  unfold EStateM.bind at h
  split at h
  · exact ⟨_, _, ‹_›, h⟩
  · cases h

theorem of_bind_error {m : EStateM ε σ α} {f : α → EStateM ε σ β} {s s'' : σ} {e : ε} (h : (m >>= f) s = .error e s'') :
    m s = .error e s'' ∨ ∃ a s', m s = .ok a s' ∧ f a s' = .error e s'' := by
  cases hs : m s with
  | ok a s' => exact .inr ⟨a, s', rfl, (bind_of_ok hs).symm.trans h⟩
  | error e' s' =>
    change EStateM.bind m f s = _ at h
    rw [EStateM.bind, hs] at h
    cases h
    exact .inl rfl

theorem bind_cases {m : EStateM ε σ α} {P : EStateM.Result ε σ β → Prop}
    (hf : ∀ a s', m s = .ok a s' → P (f a s')) (he : ∀ e s', m s = .error e s' → P (.error e s')) : P ((m >>= f) s) := by
  change P (EStateM.bind m f s)
  unfold EStateM.bind
  cases h : m s with
  | ok a s' => exact hf a s' h
  | error e s' => exact he e s' h

/-! ## Steps along a relation -/

/-- A step leads along a relation, whether it succeeds or fails. -/
def Leads (R : σ → σ → Prop) (m : EStateM ε σ α) : Prop := ∀ s, R s (after m s)

namespace Leads

variable {R : σ → σ → Prop} {m : EStateM ε σ α}

theorem ok (h : Leads R m) (e : m s = .ok a s') : R s s' := after_of_ok e ▸ h s

theorem error (h : Leads R m) {f : ε} (e : m s = .error f s') : R s s' := after_of_error e ▸ h s

theorem pure [Std.Refl R] (a : α) : Leads R (Pure.pure a : EStateM ε σ α) := fun _ => Std.Refl.refl _

variable [Trans R R R]

theorem bind_ok (h : Leads R m) (g : ∀ {s a s'}, m s = .ok a s' → R s' (after (f a) s')) : Leads R (m >>= f) := fun s =>
  bind_cases (P := fun r : EStateM.Result ε σ β => R s (match r with
    | .ok _ s' => s'
    | .error _ s' => s')) (fun _ _ e => Trans.trans (h.ok e) (g e)) fun _ _ e => h.error e

theorem bind (h : Leads R m) (g : ∀ a, Leads R (f a)) : Leads R (m >>= f) := h.bind_ok fun _ => g _ _

theorem tryCatch {f : ε → EStateM ε σ α} (h : Leads R m) (g : ∀ e, Leads R (f e)) : Leads R (MonadExcept.tryCatch m f) := by
  intro s
  change R s (match EStateM.tryCatch m f s with
    | .ok _ s' => s'
    | .error _ s' => s')
  unfold EStateM.tryCatch
  cases e : m s with
  | ok a s' => exact h.ok e
  | error f' s' => exact Trans.trans (h.error e) (g f' s')

theorem mapM [Std.Refl R] {xs : List γ} {f : γ → EStateM ε σ β} (h : ∀ x, Leads R (f x)) : Leads R (xs.mapM f) := by
  induction xs with
  | nil => exact pure _
  | cons x xs ih =>
    rw [List.mapM_cons]
    exact bind (h x) fun _ => bind ih fun _ => pure _

end Leads

/-! ## Steps that keep what is seen -/

/-- A step keeps what is seen of the state. -/
class Keeps (view : σ → V) (m : EStateM ε σ α) : Prop where
  kept : ∀ s, view (after m s) = view s

namespace Keeps

theorem of_ok (view : σ → V) (m : EStateM ε σ α) [h : Keeps view m] (e : m s = .ok a s') : view s' = view s := after_of_ok e ▸ h.kept s

theorem of_error (view : σ → V) (m : EStateM ε σ α) [h : Keeps view m] {f : ε} (e : m s = .error f s') : view s' = view s :=
  after_of_error e ▸ h.kept s

/-! ## Ways to build a step -/

variable {view : σ → V}

instance : Trans (fun s s' => view s' = view s) (fun s s' => view s' = view s) fun s s' => view s' = view s := ⟨fun h h' => h'.trans h⟩

instance pure (a : α) : Keeps view (Pure.pure a : EStateM ε σ α) := ⟨fun _ => rfl⟩

instance throw (e : ε) : Keeps view (MonadExcept.throw e : EStateM ε σ α) := ⟨fun _ => rfl⟩

instance get : Keeps view (MonadState.get : EStateM ε σ σ) := ⟨fun _ => rfl⟩

theorem besideGet {f : σ → α × σ} (h : ∀ s, view (f s).2 = view s) : Keeps view (MonadState.modifyGet f : EStateM ε σ α) := ⟨h⟩

theorem beside {f : σ → σ} (h : ∀ s, view (f s) = view s) : Keeps view (modify f : EStateM ε σ PUnit) := ⟨h⟩

instance bind {m : EStateM ε σ α} {f : α → EStateM ε σ β} [h : Keeps view m] [g : ∀ a, Keeps view (f a)] : Keeps view (m >>= f) :=
  ⟨Leads.bind (R := fun s s' => view s' = view s) h.kept fun a => (g a).kept⟩

theorem seq {m : EStateM ε σ α} [Keeps view m] (_ : ∀ a, Keeps view (f a)) : Keeps view (m >>= f) := bind

instance map {m : EStateM ε σ α} {f : α → β} [h : Keeps view m] : Keeps view (f <$> m) := by
  refine ⟨fun s => ?_⟩
  change view (match EStateM.map f m s with
    | .ok _ s' => s'
    | .error _ s' => s') = _
  unfold EStateM.map
  cases e : m s with
  | ok a s' => exact of_ok view m e
  | error f s' => exact of_error view m e

instance tryCatch {m : EStateM ε σ α} {f : ε → EStateM ε σ α} [h : Keeps view m] [g : ∀ e, Keeps view (f e)] :
    Keeps view (MonadExcept.tryCatch m f) :=
  ⟨Leads.tryCatch (R := fun s s' => view s' = view s) h.kept fun e => (g e).kept⟩

instance ite {c : Prop} [Decidable c] {m m' : EStateM ε σ α} [h : Keeps view m] [g : Keeps view m'] : Keeps view (if c then m else m') := by
  split
  · exact h
  · exact g

/-- A step that is only taken on a condition, and what follows in both cases. -/
instance (priority := 2000) when {c : Prop} [Decidable c] {m : EStateM ε σ PUnit} {f : PUnit → EStateM ε σ α} [h : Keeps view m]
    [g : ∀ u, Keeps view (f u)] : Keeps view (if c then m >>= f else f ⟨⟩) := ite

instance mapM {xs : List γ} {f : γ → EStateM ε σ β} [h : ∀ x, Keeps view (f x)] : Keeps view (xs.mapM f) := by
  induction xs with
  | nil => exact pure _
  | cons x xs ih =>
    rw [List.mapM_cons]
    infer_instance

instance forM {xs : List γ} {f : γ → EStateM ε σ PUnit} [h : ∀ x, Keeps view (f x)] : Keeps view (xs.forM f) := by
  induction xs with
  | nil => exact pure _
  | cons x xs ih =>
    change Keeps view (f x >>= fun _ => xs.forM f)
    infer_instance

instance forIn {xs : List γ} {f : γ → β → EStateM ε σ (ForInStep β)} [h : ∀ x b, Keeps view (f x b)] {b : β} : Keeps view (ForIn.forIn xs b f) := by
  induction xs generalizing b with
  | nil => exact pure _
  | cons x xs ih =>
    rw [List.forIn_cons]
    refine seq fun s => ?_
    cases s with
    | done _ => exact pure _
    | yield _ => exact ih

instance optionMapM {x : Option γ} {f : γ → EStateM ε σ β} [h : ∀ y, Keeps view (f y)] : Keeps view (x.mapM f) := by
  cases x with
  | none => exact pure _
  | some y => exact map

end Keeps

/-! ## Steps that do not fail -/

/-- A step that succeeds from every state. -/
class Sure (m : EStateM ε σ α) : Prop where
  ok : ∀ s, ∃ a s', m s = .ok a s'

namespace Sure

instance pure (a : α) : Sure (Pure.pure a : EStateM ε σ α) := ⟨fun s => ⟨a, s, rfl⟩⟩

instance get : Sure (MonadState.get : EStateM ε σ σ) := ⟨fun s => ⟨s, s, rfl⟩⟩

instance modify (f : σ → σ) : Sure (modify f : EStateM ε σ PUnit) := ⟨fun s => ⟨⟨⟩, f s, rfl⟩⟩

instance modifyGet (f : σ → α × σ) : Sure (MonadState.modifyGet f : EStateM ε σ α) := ⟨fun s => ⟨(f s).1, (f s).2, rfl⟩⟩

instance bind {m : EStateM ε σ α} {f : α → EStateM ε σ β} [h : Sure m] [g : ∀ a, Sure (f a)] : Sure (m >>= f) := by
  refine ⟨fun s => ?_⟩
  obtain ⟨a, s', e⟩ := h.ok s
  obtain ⟨b, s'', e'⟩ := (g a).ok s'
  exact ⟨b, s'', (bind_of_ok e).trans e'⟩

theorem seq {m : EStateM ε σ α} {f : α → EStateM ε σ β} [Sure m] (_ : ∀ a, Sure (f a)) : Sure (m >>= f) := bind

instance ite {c : Prop} [Decidable c] {m m' : EStateM ε σ α} [h : Sure m] [g : Sure m'] : Sure (if c then m else m') := by
  split
  · exact h
  · exact g

instance mapM {xs : List γ} {f : γ → EStateM ε σ β} [h : ∀ x, Sure (f x)] : Sure (xs.mapM f) := by
  induction xs with
  | nil => exact pure _
  | cons x xs ih =>
    rw [List.mapM_cons]
    infer_instance

instance forM {xs : List γ} {f : γ → EStateM ε σ PUnit} [h : ∀ x, Sure (f x)] : Sure (xs.forM f) := by
  induction xs with
  | nil => exact pure _
  | cons x xs ih =>
    change Sure (f x >>= fun _ => xs.forM f)
    infer_instance

variable {m : EStateM ε σ α} {s'' : σ} {e : ε}

theorem of_bind_error [h : Sure m] (hm : (m >>= f) s = .error e s'') : ∃ a s', m s = .ok a s' ∧ f a s' = .error e s'' := by
  obtain ⟨a, s', e'⟩ := h.ok s
  exact ⟨a, s', e', (bind_of_ok e').symm.trans hm⟩

theorem error_of_bind [h : ∀ a, Sure (f a)] (hm : (m >>= f) s = .error e s'') : m s = .error e s'' := by
  rcases Trace.of_bind_error hm with hs | ⟨a, s', -, hf⟩
  · exact hs
  · obtain ⟨b, t, e'⟩ := (h a).ok s'
    cases e'.symm.trans hf

end Sure

end FlowCompiler.Trace
