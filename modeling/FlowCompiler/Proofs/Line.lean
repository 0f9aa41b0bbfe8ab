import FlowCompiler.Proofs.Growth
import FlowCompiler.Trace.Code.Run

/-!
# Straight lines

The machine comes through a row of operations one after another as long as no guard fails.  A box gets its
value once: the value that an operation finds for an operand is the one that the frame still has at the end.
-/

namespace FlowCompiler.Trace

/-- Every box that is used is an input or the result of an earlier operation, and no operation gives a box a
value that has one. -/
structure WellFormed (inputs : List Box) (ops : List Op) : Prop where
  defined : ∀ (k : Nat) (op : Op), ops[k]? = some op → ∀ b ∈ op.boxArgs ++ op.boxFails,
    b ∈ inputs ∨ ∃ (j : Nat) (p : Op), j < k ∧ ops[j]? = some p ∧ p.result = some b
  single : ∀ (j k : Nat) (p q : Op) (b : Box), ops[j]? = some p → ops[k]? = some q → p.result = some b → q.result = some b → j = k
  fresh : ∀ op ∈ ops, ∀ b, op.result = some b → b ∉ inputs

/-- No operation gives a box a value that was used before. -/
theorem WellFormed.result_ne {inputs : List Box} {ops : List Op} (h : WellFormed inputs ops) {j k : Nat} {p q : Op} {b : Box}
    (hp : ops[j]? = some p) (hb : b ∈ p.boxArgs) (hq : ops[k]? = some q) (hjk : j ≤ k) : q.result ≠ some b := by
  intro hr
  rcases h.defined j p hp b (List.mem_append_left _ hb) with hin | ⟨i, r, hi, hr', hb'⟩
  · exact h.fresh q (List.mem_of_getElem? hq) b hr hin
  · have := h.single i k r q b hr' hq hb' hr
    omega

/-! ## Frames -/

namespace Frame

/-- The value of a box; a box that was never bound is zero. -/
def value (f : Frame) (b : Box) : Const :=
  match f.env[b]? with
  | some (some (.const c)) => c
  | _ => .zero b.kind

/-- The constant that a value stands for. -/
def val (f : Frame) : Value → Const
  | .box b => f.value b
  | .const c => c

/-- Every box is bound to a constant of its kind. -/
def Typed (f : Frame) : Prop := ∀ (b : Box) (v : Option Value), f.env[b]? = some v → ∃ c, v = some (.const c) ∧ c.kind = b.kind

theorem resolve_eq {f : Frame} (h : f.Typed) (v : Value) : Exec.resolve f v = some (.const (f.val v)) := by
  cases v with
  | const c => rfl
  | box b =>
    unfold Exec.resolve
    simp only [val, value]
    cases hb : f.env[b]? with
    | none => rfl
    | some v =>
      obtain ⟨c, rfl, -⟩ := h b v hb
      rfl

theorem kind_val {f : Frame} (h : f.Typed) {v : Value} (hv : v.kind ≠ .void) : (f.val v).kind = v.kind := by
  cases v with
  | const c => rfl
  | box b =>
    change (f.value b).kind = b.kind
    rw [value]
    cases hb : f.env[b]? with
    | none => cases hk : b.kind <;> first | rfl | exact absurd hk hv
    | some v =>
      obtain ⟨c, rfl, hk⟩ := h b v hb
      exact hk

end Frame

namespace Run

/-- The value that a result is bound to. -/
def resultOf (r : Box) : Except ExecError (Option Value) → Value
  | .ok v => v.getD (.const (.zero r.kind))
  | .error .overflow => .ofInt 0
  | .error _ => .const (.zero r.kind)

section

variable (op : Op) (outcome : Except ExecError (Option Value)) (f : Frame)
include op outcome f

theorem finishOp_eq : finishOp op outcome f = { f with
      env := match op.result with
        | some r => f.env.insert r (some (resultOf r outcome))
        | none => f.env
      exc := match outcome with
        | .error (.raised exc) => exc
        | _ => f.exc
      overflow := match outcome with
        | .error .overflow => true
        | _ => false
      pendingGuard := none } := by
  unfold finishOp
  cases op.result with
  | none => rcases outcome with (_ | _ | _ | _ | _) | _ <;> rfl
  | some r => rcases outcome with (_ | _ | _ | _ | _) | _ <;> rfl

theorem finishOp_env : (finishOp op outcome f).env = match op.result with
      | some r => f.env.insert r (some (resultOf r outcome))
      | none => f.env := by rw [finishOp_eq]

theorem finishOp_overflow : (finishOp op outcome f).overflow = match outcome with
      | .error .overflow => true
      | _ => false := by rw [finishOp_eq]

end

/-- The constants that an operation is executed on. -/
def arguments (f : Frame) (op : Op) : List Value := (op.args.zip (operands f op)).map fun (v, w) => w.getD (.const (.zero v.kind))

/-- An operation was executed with an outcome that is not fatal. -/
structure Executed (frame : FrameId) (op : Op) (s s' : Store) : Prop where
  exists_outcome : ∃ s₁ s₂ outcome, s.Extends s₁ ∧ (∀ v, outcome = .ok v → execute op.code op.descr (arguments (s₁.frame frame) op) s₁ = .ok v s₂) ∧
    (∀ e, outcome = .error e → execute op.code op.descr (arguments (s₁.frame frame) op) s₁ = .error e s₂) ∧
    isFatal outcome = none ∧ s' = s₂.updateFrame frame (finishOp op outcome)

/-- Executes an operation with the frame as it is. -/
def perform (frame : FrameId) (op : Op) : StoreM Unit := do
  let s ← get
  let (outcome, s) := match (execute op.code op.descr (arguments (s.frame frame) op)).run s with
    | .ok v s => ((.ok v : Except ExecError (Option Value)), s)
    | .error e s => (.error e, s)
  set (s.updateFrame frame (finishOp op outcome))
  match isFatal outcome with
  | some e => throw (.wrapped s!"llgraph: {s.opText op}" (.plain (e.message s)))
  | none => pure ()

theorem executed_of_perform {frame : FrameId} {op : Op} {s t s' : Store} (hext : s.Extends t)
    (h : perform frame op t = .ok () s') : Executed frame op s s' := by
  have hend {outcome : Except ExecError (Option Value)} {s₂ : Store} (h : (do
      set (s₂.updateFrame frame (finishOp op outcome))
      match isFatal outcome with
      | some e => throw (.wrapped s!"llgraph: {s₂.opText op}" (.plain (e.message s₂)))
      | none => pure () : StoreM Unit) t = .ok () s') :
      isFatal outcome = none ∧ s' = s₂.updateFrame frame (finishOp op outcome) := by
    obtain ⟨_, s₃, e, h⟩ := of_bind_ok h
    cases e
    cases hf : isFatal outcome with
    | none =>
      rw [hf] at h
      cases h
      exact ⟨rfl, rfl⟩
    | some e =>
      rw [hf] at h
      cases h
  obtain ⟨_, _, e, h⟩ := of_bind_ok h
  cases e
  cases hrun : (execute op.code op.descr (arguments (t.frame frame) op)).run t with
  | ok v s₂ =>
    rw [hrun] at h
    obtain ⟨hf, hs⟩ := hend h
    exact ⟨t, s₂, .ok v, hext, fun w e => by cases e; exact hrun, fun w e => (by cases e), hf, hs⟩
  | error e s₂ =>
    rw [hrun] at h
    obtain ⟨hf, hs⟩ := hend h
    exact ⟨t, s₂, .error e, hext, fun w e => (by cases e), fun w e => by cases e; exact hrun, hf, hs⟩

theorem executeOp_cases {frame : FrameId} {unit : CompiledUnit} {pc : Nat} {op : Op} {s s' : Store} (h : executeOp frame unit pc op s = .ok () s') :
    (op.code = .forceToken ∧ ∃ r t, s.Extends t ∧ s' = t.updateFrame frame fun f => match op.result with
      | some b => { f with env := f.env.insert b (some (.ofRef r)) }
      | none => f) ∨ op.code ≠ .forceToken ∧ Executed frame op s s' := by
  unfold executeOp at h
  split at h
  · rename_i hc
    obtain ⟨r, t, hr, ht⟩ := of_bind_ok h
    cases ht
    exact .inl ⟨hc, r, t, (Extending.newObject _ s).1 _ _ hr, rfl⟩
  · rename_i hc
    refine .inr ⟨hc, ?_⟩
    by_cases hm : op.code = .callMayForce
    · rw [if_pos hm] at h
      obtain ⟨_, t, e, h⟩ := of_bind_ok h
      cases e
      refine executed_of_perform ?_ h
      exact .updateFrame s frame fun _ => rfl
    · rw [if_neg hm] at h
      exact executed_of_perform (.refl s) h

/-- A frame comes through operations of a unit, one after another: no guard fails on the way. -/
inductive Through (c : CodeCache) (frame : FrameId) (u : UnitId) : Nat → Nat → Store → Store → Prop
  | here (k : Nat) (s : Store) : Through c frame u k k s s
  | step {k n : Nat} {s t s' : Store} (h : advance c frame ⟨u, k⟩ s = .ok (.next ⟨u, k + 1⟩) t)
      (rest : Through c frame u (k + 1) n t s') : Through c frame u k n s s'

variable {c : CodeCache} {frame : FrameId} {u : UnitId} {k n : Nat} {op : Op} {s s' : Store}

/-- What one operation of a straight line does. -/
inductive Stepped (frame : FrameId) (op : Op) (s s' : Store) : Prop
  | label (hc : op.code = .label) (hs : s' = s)
  | guard (hg : op.isGuard = true) (hh : holds s (s.frame frame) op = true) (hs : s' = s.updateFrame frame (passGuard op))
  | token (hc : op.code = .forceToken) (r : Ref) (t : Store) (ht : s.Extends t)
      (hs : s' = t.updateFrame frame fun f => match op.result with
        | some b => { f with env := f.env.insert b (some (.ofRef r)) }
        | none => f)
  | executed (hg : op.isGuard = false) (hc : op.code ≠ .forceToken) (he : Executed frame op s s')

theorem stepped_of_advance (hop : (c.unit u).ops[k]? = some op) (hf : op.isFinal = false)
    (h : advance c frame ⟨u, k⟩ s = .ok (.next ⟨u, k + 1⟩) s') : Stepped frame op s s' := by
  unfold advance at h
  rw [hop] at h
  dsimp only at h
  split at h
  · rename_i hc
    cases h
    exact .label hc rfl
  split at h
  · rename_i hc
    rw [Op.isFinal, hc] at hf
    cases hf
  split at h
  · rename_i hc
    rw [Op.isFinal, hc] at hf
    cases hf
  split at h
  · rename_i hg
    obtain ⟨_, _, e, h⟩ := of_bind_ok h
    cases e
    split at h
    · rename_i hh
      cases h
      exact .guard hg hh rfl
    · -- a bridge does not lead to the next operation
      obtain ⟨_, _, e, h⟩ := of_bind_ok h
      cases e
      cases hb : op.descr.bind c.bridge? <;> rw [hb] at h <;> cases h
  · rename_i hg
    obtain ⟨_, _, e, h⟩ := of_bind_ok h
    cases h
    rcases executeOp_cases e with ⟨hc, r, t, ht, hs⟩ | ⟨hc, he⟩
    · exact .token hc r t ht hs
    · exact .executed (by simpa using hg) hc he

/-- A step binds at most the result, and keeps what objects are. -/
structure Moved (frame : FrameId) (op : Op) (s s' : Store) : Prop where
  frames : s'.frames.size = s.frames.size
  classOf? : ∀ r cls, s.classOf? r = some cls → s'.classOf? r = some cls
  env : ∀ b, op.result ≠ some b → (s'.frame frame).env[b]? = (s.frame frame).env[b]?

theorem Stepped.moved (h : Stepped frame op s s') (hframe : frame < s.frames.size) : Moved frame op s s' := by
  have hof {t : Store} {f : Frame → Frame} (ht : s.Extends t)
      (hf : ∀ x b, op.result ≠ some b → (f x).env[b]? = x.env[b]?) : Moved frame op s (t.updateFrame frame f) := by
    refine ⟨by simp [Store.updateFrame, ht.frames], fun r cls hr => ht.classOf? hr, fun b hb => ?_⟩
    rw [Store.frame_updateFrame (ht.frames ▸ hframe), hf _ b hb, ht.env]
  have hinsert {env : Std.HashMap Box (Option Value)} {v : Option Value} {r b : Box} (hr : op.result = some r)
      (hb : op.result ≠ some b) : (env.insert r v)[b]? = env[b]? := by
    have hne : r ≠ b := fun e => hb (e ▸ hr)
    rw [Std.HashMap.getElem?_insert, if_neg (by simpa using hne)]
  cases h with
  | label _ hs =>
    subst hs
    exact ⟨rfl, fun _ _ h => h, fun _ _ => rfl⟩
  | guard _ _ hs =>
    subst hs
    refine hof (.refl s) fun x b hb => ?_
    unfold passGuard
    split
    · split
      · exact hinsert ‹_› hb
      · rfl
    · rfl
  | token _ r t ht hs =>
    subst hs
    refine hof ht fun x b hb => ?_
    split
    · exact hinsert ‹_› hb
    · rfl
  | executed _ _ he =>
    obtain ⟨s₁, s₂, outcome, h₁, hok, herror, -, hs⟩ := he.exists_outcome
    subst hs
    have h₂ : s₁.Extends s₂ := by
      cases outcome with
      | ok v => exact (Extending.execute _ _ _ s₁).1 _ _ (hok v rfl)
      | error e => exact (Extending.execute _ _ _ s₁).2 _ _ (herror e rfl)
    refine hof (h₁.trans h₂) fun x b hb => ?_
    rw [finishOp_env]
    split
    · exact hinsert ‹_› hb
    · rfl

namespace Through

theorem le (h : Through c frame u k n s s') : k ≤ n := by
  induction h with
  | here => exact Nat.le_refl _
  | step _ _ ih => omega

theorem eq_of_le (h : Through c frame u k n s s') (hn : n ≤ k) : s' = s := by
  cases h with
  | here => rfl
  | step _ rest => exact absurd rest.le (by omega)

theorem split (h : Through c frame u k n s s') {i : Nat} (hk : k ≤ i) (hn : i < n) :
    ∃ t t', Through c frame u k i s t ∧ advance c frame ⟨u, i⟩ t = .ok (.next ⟨u, i + 1⟩) t' ∧ Through c frame u (i + 1) n t' s' := by
  induction h with
  | here => omega
  | @step k n s t s' h rest ih =>
    rcases Nat.eq_or_lt_of_le hk with rfl | hlt
    · exact ⟨s, t, .here _ s, h, rest⟩
    · obtain ⟨t₁, t₂, h₁, h₂, h₃⟩ := ih hlt hn
      exact ⟨t₁, t₂, .step h h₁, h₂, h₃⟩

/-- What a row of operations leaves as it is. -/
structure Kept (ops : List Op) (frame : FrameId) (k n : Nat) (s s' : Store) : Prop where
  frames : s'.frames.size = s.frames.size
  classOf? : ∀ r cls, s.classOf? r = some cls → s'.classOf? r = some cls
  env : ∀ b, (∀ (i : Nat) (op : Op), k ≤ i → i < n → ops[i]? = some op → op.result ≠ some b) → (s'.frame frame).env[b]? = (s.frame frame).env[b]?

variable {ops : List Op}

theorem getElem?_of_isPrefix (hops : ops <+: (c.unit u).ops.toList) {i : Nat} (hi : i < ops.length) : (c.unit u).ops[i]? = ops[i]? := by
  obtain ⟨rest, h⟩ := hops
  rw [← Array.getElem?_toList, ← h, List.getElem?_append_left hi]

theorem kept (h : Through c frame u k n s s') (hops : ops <+: (c.unit u).ops.toList) (hn : n ≤ ops.length)
    (hf : ∀ op ∈ ops, op.isFinal = false) (hframe : frame < s.frames.size) : Kept ops frame k n s s' := by
  induction h with
  | here => exact ⟨rfl, fun _ _ h => h, fun _ _ => rfl⟩
  | @step k n s t s' h rest ih =>
    have hk : k < ops.length := Nat.lt_of_lt_of_le rest.le hn
    have hop : ops[k]? = some ops[k] := List.getElem?_eq_getElem hk
    have hm := (stepped_of_advance ((getElem?_of_isPrefix hops hk).trans hop) (hf _ (List.getElem_mem hk)) h).moved hframe
    have hr := ih hn (hm.frames ▸ hframe)
    refine ⟨hr.frames.trans hm.frames, fun r cls hc => hr.classOf? r cls (hm.classOf? r cls hc), fun b hb => ?_⟩
    rw [hr.env b fun i op hi => hb i op (by omega), hm.env b (hb k _ (Nat.le_refl k) rest.le hop)]

end Through

end Run
end FlowCompiler.Trace
