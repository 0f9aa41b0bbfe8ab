import FlowCompiler.Proofs.Peeling.Rounds

/-!
# Unrolled loops run like plain ones

A loop and the loop that is peeled from it, compiled without being optimized, are entered with the same arguments.  Both leave by the
same guard with the same values, or finish with the same results, after any number of rounds, or neither ever leaves.  This needs one
thing of the body: the constants of the second label are put into boxes by operations, which do not overflow, so an overflow guard must not
ask about an operation of the round before.
-/

namespace FlowCompiler.Trace

open List

variable {b : Box} {u : UnitId}

/-- Enters a loop with arguments and runs it for at most a number of steps. -/
def CodeCache.executeFor (c : CodeCache) (steps : Nat) (cell : CellId) (args : List (Option Value)) : StoreM FrameId := do
  let s ← get
  match c.loops.lookup cell with
  | none => throw (.plain s!"llgraph: {s.cellText cell} is not compiled")
  | some u => do
    let inputs := (c.unit u).inputs
    if args.length ≠ inputs.length then
      throw (.plain s!"llgraph: {s.cellText cell} takes {inputs.length} arguments, got {args.length}")
    let frame := s.frames.size
    set { s with frames := s.frames.push { env := Run.bind {} inputs args, token := some cell } }
    Run.run c frame steps ⟨u, 0⟩
    pure frame

variable {first : TargetId} {behind ops : List Op} {g : GuardId} {second : TargetId} {saved : List Box}

namespace Peel

open Run (jumpTo labelAt)

/-! ## Entering a loop -/

/-- A store with a new frame at the start of a loop. -/
def entered (s : Store) (cell : CellId) (inputs : List Box) (args : List (Option Value)) : Store :=
  { s with frames := s.frames.push { env := Run.bind {} inputs args, token := some cell } }

section

variable {c : CodeCache} {cell : CellId} {a : CompiledUnit} {n : Nat} {args : List (Option Value)} {s t : Store} {i : FrameId}

theorem unit_enterLoop : (c.enterLoop cell a).unit c.units.size = a := by
  change ((c.units.push a)[c.units.size]?).getD default = a
  simp

theorem lookup_enterLoop : (c.enterLoop cell a).loops.lookup cell = some c.units.size := by
  change ((cell, c.units.size) :: _).lookup cell = _
  simp

theorem executeFor_ok (h : (c.enterLoop cell a).executeFor n cell args s = .ok i t) : args.length = a.inputs.length ∧ i = s.frames.size ∧
      Run.run (c.enterLoop cell a) s.frames.size n ⟨c.units.size, 0⟩ (entered s cell a.inputs args) = .ok ⟨⟩ t := by
  have hread : (get : StoreM Store) s = .ok s s := rfl
  unfold CodeCache.executeFor at h
  rw [bind_of_ok hread] at h
  simp only [lookup_enterLoop, unit_enterLoop] at h
  split at h
  · cases h
  · rename_i hlen
    obtain ⟨_, s₁, e, h⟩ := of_bind_ok h
    cases e
    obtain ⟨_, s₂, e, h⟩ := of_bind_ok h
    cases h
    exact ⟨by simpa using hlen, rfl, e⟩

theorem executeFor_of_run (hlen : args.length = a.inputs.length)
    (h : Run.run (c.enterLoop cell a) s.frames.size n ⟨c.units.size, 0⟩ (entered s cell a.inputs args) = .ok ⟨⟩ t) :
    (c.enterLoop cell a).executeFor n cell args s = .ok s.frames.size t := by
  have hread : (get : StoreM Store) s = .ok s s := rfl
  unfold CodeCache.executeFor
  rw [bind_of_ok hread]
  simp only [lookup_enterLoop, unit_enterLoop]
  rw [if_neg (by simpa using hlen)]
  change (set (entered s cell a.inputs args) >>= fun _ => Run.run (c.enterLoop cell a) s.frames.size n ⟨c.units.size, 0⟩ >>=
    fun _ => pure s.frames.size : StoreM FrameId) s = _
  rw [bind_of_ok (show (set (entered s cell a.inputs args) : StoreM PUnit) s = .ok ⟨⟩ (entered s cell a.inputs args) from rfl), bind_of_ok h]
  rfl

theorem labelsOf_none {k : Nat} (h : ∀ op ∈ ops, op.code ≠ .label) : (ops.zipIdx k).filterMap (fun p : Op × Nat => match p.1.code, p.1.descr with
      | .label, some (.target t) => some (t, (⟨u, p.2⟩ : Position))
      | _, _ => none) = [] := by
  rw [filterMap_eq_nil_iff]
  intro p hp
  have hcode := h p.1 (fst_mem_of_mem_zipIdx hp)
  split
  · exact absurd ‹_› hcode
  · rfl

theorem label_enterLoop {before behind : List Op} {l : TargetId} {vs : List Value} (h : a.ops.toList = before ++ labelAt l vs :: behind)
    (hb : ∀ op ∈ behind, op.code ≠ .label) : (c.enterLoop cell a).label? l = some ⟨c.units.size, before.length⟩ := by
  have hlabels : ∃ rest, CodeCache.labelsOf c.units.size a.ops.toList = rest ++ [(l, ⟨c.units.size, before.length⟩)] := by
    rw [h, CodeCache.labelsOf, zipIdx_append, filterMap_append, zipIdx_cons, filterMap_cons]
    refine ⟨_, congrArg _ ?_⟩
    rw [Nat.zero_add]
    exact congrArg (List.cons (l, (⟨c.units.size, before.length⟩ : Position))) (labelsOf_none hb)
  obtain ⟨rest, hrest⟩ := hlabels
  change ((CodeCache.labelsOf c.units.size a.ops.toList).reverse ++ _).lookup l = _
  rw [hrest, reverse_concat]
  simp

end

/-! ## Runs of both loops -/

/-- A later store in which nothing has been attached to the guards of a loop: they have their opcodes, and no resume data. -/
structure Bare (s t : Store) (ops : List Op) : Prop where
  codes : ∀ g < s.guards.size, (t.guard g).code = (s.guard g).code
  blank : Blank t.guards ops

/-- Where a run of the first loop leaves, a run of the second one leaves too, with at most some steps more, and the other way round. -/
structure Matches (c c' : CodeCache) (cell : CellId) (more : Nat) (body copy : List Op) (args : List (Option Value)) (t : Store) : Prop where
  forward : ∀ n i t₁, c.executeFor n cell args t = .ok i t₁ → ∃ t₂, c'.executeFor (n + more) cell args t = .ok i t₂ ∧ SameExit i body copy t₁ t₂
  backward : ∀ n i t₂, c'.executeFor n cell args t = .ok i t₂ → ∃ t₁, c.executeFor n cell args t = .ok i t₁ ∧ SameExit i body copy t₁ t₂

section

variable {c : CodeCache} {cell : CellId} {s s' t : Store} {inputs : List Box} {body : List Op} {jumpArgs : List Value} {q : Parts}

/-- Both loops are loaded when they are entered under one token, each in its own cache. -/
theorem loaded_enterLoop (h : Proper s inputs body jumpArgs) (hsettles : (∀ v ∈ jumpArgs, v.isConst = false) ∨ Settles body)
    (hfree : ∀ op ∈ body, op.descr.bind c.bridge? = none) (hnew : ∀ g u, c.bridge? (.guard g) = some u → g < s.guards.size)
    (hq : q.Made s s' inputs body jumpArgs) (ht : Bare s' t (body ++ q.copy)) {a b : CompiledUnit}
    (ha : a.ops.toList = plainLoop first inputs body jumpArgs) (hb : b.ops.toList = q.ops first second inputs body jumpArgs) :
    Loaded (c.enterLoop cell a) (c.enterLoop cell b) c.units.size c.units.size t.guards s.boxes first second inputs body jumpArgs q := by
  obtain ⟨⟨m, hm⟩, s₁, hg, hc⟩ := hq
  have hstraight (op : Op) (hop : op ∈ body) : op.code ≠ .label := by
    obtain ⟨known, hfits⟩ := h.fits.fits hop
    exact hfits.straight.1
  refine ⟨by rw [unit_enterLoop, ha], by rw [unit_enterLoop, hb], ?_, ?_, fun op hop => ⟨hfree op hop, hfree op hop⟩, fun op hop => ?_,
    fun op hop => ht.blank op (mem_append_left _ hop), h.closes, h.arity, h.boxes, ⟨m, hm⟩, hc.twins _ ht.codes ht.blank, hsettles⟩
  · refine label_enterLoop (show a.ops.toList = [] ++ labelAt first (inputs.map .box) :: (body ++ [jumpTo first jumpArgs]) from ha) fun op hop => ?_
    rcases mem_append.1 hop with hop | hop
    · exact hstraight op hop
    · rw [mem_singleton.1 hop]
      simp [jumpTo]
  · have hunrolled : b.ops.toList = (labelAt first (inputs.map .box) :: (body ++ q.moves)) ++ labelAt second (q.names.map .box) ::
        (q.copy ++ [jumpTo second (jumpArgs.map q.naming.value)]) := by
      rw [hb, Parts.ops]
      simp
    have hlabel : (c.enterLoop cell b).label? second = _ := label_enterLoop hunrolled fun op hop => by
      rcases mem_append.1 hop with hop | hop
      · exact (hc.straight op hop).1
      · rw [mem_singleton.1 hop]
        simp [jumpTo]
    rw [hlabel]
    simp
  · change op.descr.bind c.bridge? = none
    rcases hc.old op hop with ⟨g, hdescr⟩ | ⟨op₀, h₀, e⟩
    · have hge := hc.new op hop g hdescr
      rw [hg] at hge
      rw [hdescr]
      cases hbridge : c.bridge? (.guard g) with
      | none => exact hbridge
      | some u => exact absurd (hnew g u hbridge) (Nat.not_lt_of_le hge)
    · rw [e]
      exact hfree op₀ h₀

theorem sides_entered (hs : Scoped inputs body) {u u' : UnitId} {args : List Value} (hlen : args.length = inputs.length) :
    Sides u u' t.guards t.frames.size inputs body q q.moves.length ⟨u, 1⟩ (entered t cell inputs (args.map some))
      ⟨u', 1⟩ (entered t cell inputs (args.map some)) := by
  have hframe : (entered t cell inputs (args.map some)).frame t.frames.size = { env := Run.bind {} inputs (args.map some), token := some cell } := by
    simp [entered, Store.frame]
  have hquiet : Quiet t.guards none none := ⟨rfl, fun _ e => by cases e⟩
  refine .first (show body = [] ++ body from rfl) rfl hs ⟨⟨rfl, rfl, rfl, fun _ _ => rfl, ?_⟩, by simp [entered], ?_, ?_⟩ rfl
  · rw [hframe]
    exact ⟨rfl, rfl, rfl, rfl, hquiet, .none⟩
  · rw [hframe]
  · rw [hframe]
    intro b hb
    obtain ⟨v, hv, hmem⟩ := Run.exists_lookup_zip (show inputs.length ≤ (args.map some).length by simp [hlen]) hb
    obtain ⟨w, -, rfl⟩ := mem_map.1 hmem
    have hw : Exec.resolve { env := Run.bind {} inputs (args.map some), token := some cell } (.box b) = some w := by
      rw [Exec.resolve, Run.getElem?_bind, hv]
      rfl
    exact ⟨w, hw, by rw [Renaming.value_nil]; exact hw⟩

theorem matches_of_loaded {a b : CompiledUnit} {n : Nat} (hs : Scoped inputs body) (ha : a.inputs = inputs) (hb : b.inputs = inputs)
    (h : Loaded (c.enterLoop cell a) (c.enterLoop cell b) c.units.size c.units.size t.guards n first second inputs body jumpArgs q)
    (args : List Value) : Matches (c.enterLoop cell a) (c.enterLoop cell b) cell (jumpArgs.countP Value.isConst) body q.copy (args.map some) t := by
  obtain ⟨m, hm⟩ := h.materialized
  have hlabel (s : Store) : Run.advance (c.enterLoop cell a) t.frames.size ⟨c.units.size, 0⟩ s = .ok (.next ⟨c.units.size, 1⟩) s :=
    Run.advance_label (Run.ops_at (show _ = [] ++ labelAt first (inputs.map .box) :: (body ++ [jumpTo first jumpArgs]) from h.ops)).1
  have hlabel' (s : Store) : Run.advance (c.enterLoop cell b) t.frames.size ⟨c.units.size, 0⟩ s = .ok (.next ⟨c.units.size, 1⟩) s :=
    Run.advance_label (Run.ops_at (show _ = [] ++ labelAt first (inputs.map .box) :: _ from h.ops')).1
  refine ⟨fun n i t₁ he => ?_, fun n i t₂ he => ?_⟩
  · obtain ⟨hlen, rfl, hr⟩ := executeFor_ok he
    rw [ha] at hlen hr
    cases n with
    | zero => cases hr
    | succ n =>
      rw [Run.run_of_next (hlabel _)] at hr
      obtain ⟨t₂, hr₂, hexit⟩ := h.run_forward (sides_entered hs (by simpa using hlen)) hr
      refine ⟨t₂, executeFor_of_run (hb ▸ hlen) ?_, hexit⟩
      rw [hb, ← hm.length_moves, Nat.add_right_comm, Run.run_of_next (hlabel' _)]
      exact hr₂
  · obtain ⟨hlen, rfl, hr⟩ := executeFor_ok he
    rw [hb] at hlen hr
    cases n with
    | zero => cases hr
    | succ n =>
      rw [Run.run_of_next (hlabel' _)] at hr
      obtain ⟨t₁, hr₁, hexit⟩ := h.run_backward (sides_entered hs (by simpa using hlen)) hr
      refine ⟨t₁, executeFor_of_run (ha ▸ hlen) ?_, hexit⟩
      rw [ha, Run.run_of_next (hlabel _)]
      exact hr₁

end

/-- A loop that is unrolled, but not optimized, leaves where the plain loop leaves, by the same guard and with the same values, after any
number of rounds, and finishes with the same results.  The arguments of the jump may be permuted, repeated and constant. -/
theorem unrolled_runs {s : Store} {inputs : List Box} {body : List Op} {jumpArgs : List Value} (h : Proper s inputs body jumpArgs)
    (hsettles : (∀ v ∈ jumpArgs, v.isConst = false) ∨ Settles body) (c : CodeCache) (hfree : ∀ op ∈ body, op.descr.bind c.bridge? = none)
    (hnew : ∀ g u, c.bridge? (.guard g) = some u → g < s.guards.size) (cell : CellId) (first second : TargetId) :
    ∃ p s', peel cell (preamble first second inputs body jumpArgs) inputs body jumpArgs s = .ok p s' ∧
      ∀ (unit : CompiledUnit) (t : Store), Bare s' t (body ++ p.copy) → ∀ args : List Value,
        Matches (c.enterLoop cell { unit with inputs, ops := (plainLoop first inputs body jumpArgs).toArray })
          (c.enterLoop cell { unit with inputs, ops := (p.ops second).toArray }) cell (jumpArgs.countP Value.isConst) body p.copy
          (args.map some) t := by
  obtain ⟨p, q, s', hpeel, hops, hcopy, hq⟩ := peel_eq h cell first second
  refine ⟨p, s', hpeel, fun unit t ht args => ?_⟩
  rw [hcopy] at ht ⊢
  exact matches_of_loaded h.fits rfl rfl (loaded_enterLoop h hsettles hfree hnew hq ht rfl hops) args

/-! ## Two small loops -/

theorem Blank.of_forall {gs : Array GuardDescr} (h : ∀ d ∈ gs, d.data = none) : Blank gs ops := by
  intro op _ g _
  cases e : gs[g]? with
  | none => rfl
  | some d => exact h d (Array.mem_of_getElem? e)

theorem frame_entered (s : Store) (cell : CellId) (inputs : List Box) (args : List (Option Value)) :
    (entered s cell inputs args).frame s.frames.size = { env := Run.bind {} inputs args, token := some cell } := by
  simp [entered, Store.frame]

/-- A loop in a cache of its own. -/
def alone (inputs : List Box) (ops : List Op) : CodeCache := CodeCache.enterLoop {} 0 { name := "", inputs, ops := ops.toArray }

def leftBox : Box := ⟨1, .int⟩

def rightBox : Box := ⟨2, .int⟩

/-- A guard that tests a box and saves boxes. -/
def testOp (g : GuardId) (code : Opcode) (tested saved : List Box) : Op :=
  { code, args := tested.map .box, descr := some (.guard g), fail := some (saved.map fun b => some (.box b)) }

theorem holds_guardTrue {s : Store} {f : Frame} {n : Int64}
    (h : Exec.resolve f (.box b) = some (.const (.int n))) : Run.holds s f (testOp g .guardTrue [b] saved) = (n != 0) := by
  have hargs : Run.operands f (testOp g .guardTrue [b] saved) = [some (.const (.int n))] := congrArg (· :: []) h
  rw [Run.holds, hargs]
  rfl

theorem holds_guardFalse {s : Store} {f : Frame} {n : Int64}
    (h : Exec.resolve f (.box b) = some (.const (.int n))) : Run.holds s f (testOp g .guardFalse [b] saved) = (n == 0) := by
  have hargs : Run.operands f (testOp g .guardFalse [b] saved) = [some (.const (.int n))] := congrArg (· :: []) h
  rw [Run.holds, hargs]
  rfl

/-- A loop that goes on while its first input is not zero, and exchanges its inputs. -/
def swapBody : List Op := [testOp 0 .guardTrue [leftBox] [leftBox, rightBox]]

def swapArgs : List Value := [.box rightBox, .box leftBox]

def swapStore : Store := { guards := #[{ code := .guardTrue }], boxes := 2 }

/-- Entered with one and zero, the loop leaves in the second round. -/
theorem run_swap {c : CodeCache} {t : TargetId} (hops : (c.unit u).ops.toList = plainLoop t [leftBox, rightBox] swapBody swapArgs)
    (hlabel : c.label? t = some ⟨u, 0⟩) (hfree : c.bridge? (.guard 0) = none) (s : Store) (cell : CellId) :
    ∃ s₁, Run.run c s.frames.size 4 ⟨u, 0⟩ (entered s cell [leftBox, rightBox] [some (.ofInt 1), some (.ofInt 0)]) = .ok ⟨⟩ s₁ ∧
      (s₁.frame s.frames.size).values = [some (.ofInt 0), some (.ofInt 1)] := by
  have hat (k : Nat) : (c.unit u).ops[k]? = (plainLoop t [leftBox, rightBox] swapBody swapArgs)[k]? := by
    rw [← hops, Array.getElem?_toList]
  generalize hs₀ : entered s cell [leftBox, rightBox] [some (.ofInt 1), some (.ofInt 0)] = s₀
  have hin₀ : s.frames.size < s₀.frames.size := by simp [← hs₀, entered]
  have henv₀ : (s₀.frame s.frames.size).env = Run.bind {} [leftBox, rightBox] [some (.ofInt 1), some (.ofInt 0)] := by
    rw [← hs₀, frame_entered]
  have hleft₀ : Exec.resolve (s₀.frame s.frames.size) (.box leftBox) = some (.ofInt 1) := Run.resolve_bind henv₀ rfl
  have hright₀ : Exec.resolve (s₀.frame s.frames.size) (.box rightBox) = some (.ofInt 0) := Run.resolve_bind henv₀ rfl
  have hpass : Run.holds s₀ (s₀.frame s.frames.size) (testOp 0 .guardTrue [leftBox] [leftBox, rightBox]) = true := by
    rw [holds_guardTrue hleft₀]
    decide
  rw [Run.run_of_next (Run.advance_label (hat 0)), Run.run_of_next (Run.advance_pass (hat 1) rfl (by decide) hfree hpass),
    Run.run_of_next (Run.advance_jump (hat 2) hlabel (hat 0))]
  generalize hs₁ : s₀.updateFrame _ _ = s₁
  have hin₁ : s.frames.size < s₁.frames.size := by simpa [← hs₁] using hin₀
  have henv₁ : (s₁.frame s.frames.size).env = Run.bind (s₀.frame s.frames.size).env [leftBox, rightBox] [some (.ofInt 0), some (.ofInt 1)] := by
    rw [← hs₁, Store.frame_updateFrame hin₀, ← hleft₀, ← hright₀]
    rfl
  have hleft₁ : Exec.resolve (s₁.frame s.frames.size) (.box leftBox) = some (.ofInt 0) := Run.resolve_bind henv₁ rfl
  have hright₁ : Exec.resolve (s₁.frame s.frames.size) (.box rightBox) = some (.ofInt 1) := Run.resolve_bind henv₁ rfl
  have hleave : Run.holds s₁ (s₁.frame s.frames.size) (testOp 0 .guardTrue [leftBox] [leftBox, rightBox]) = false := by
    rw [holds_guardTrue hleft₁]
    decide
  refine ⟨_, Run.run_of_exit (Run.advance_leave (hat 1) rfl hfree hleave) 0, ?_⟩
  rw [Store.frame_updateFrame hin₁]
  simp [Run.save, testOp, Exec.resolveAll, hleft₁, hright₁]

/-- The unrolled loop leaves in its second round, too, with the values that the inputs have exchanged. -/
theorem unrolled_runs_swap :
    ∃ p s', peel 0 (preamble 0 1 [leftBox, rightBox] swapBody swapArgs) [leftBox, rightBox] swapBody swapArgs swapStore = .ok p s' ∧
      ∃ t, (alone [leftBox, rightBox] (p.ops 1)).executeFor 4 0 [some (.ofInt 1), some (.ofInt 0)] s' = .ok 0 t ∧
        (t.frame 0).values = [some (.ofInt 0), some (.ofInt 1)] := by
  have hproper : Proper swapStore [leftBox, rightBox] swapBody swapArgs := by
    refine ⟨⟨⟨by decide, by decide, by decide⟩, trivial⟩, fun b hb => ?_, by decide, by decide, fun op hop g hg => ?_⟩
    · simp only [swapArgs, mem_cons, not_mem_nil, or_false, Value.box.injEq] at hb
      rcases hb with rfl | rfl
      · decide
      · decide
    · rw [mem_singleton.1 hop] at hg
      cases hg
      decide
  obtain ⟨p, s', hpeel, h⟩ := unrolled_runs hproper (.inl (by decide)) {} (fun op _ => by cases op.descr <;> rfl) (fun g u e => by cases e) 0 0 1
  have hguards : s'.guards = #[{ code := .guardTrue }, { code := .guardTrue }] := by
    cases hpeel
    rfl
  have hframes : s'.frames.size = 0 := by
    cases hpeel
    rfl
  have hbare : Bare s' s' (swapBody ++ p.copy) := ⟨fun _ _ => rfl, .of_forall (by simp [hguards])⟩
  obtain ⟨t₁, hrun, hvalues⟩ := run_swap (c := alone [leftBox, rightBox] (plainLoop 0 [leftBox, rightBox] swapBody swapArgs))
    (u := 0) rfl rfl rfl s' 0
  obtain ⟨t₂, hrun', k, op, op', -, -, -, hd⟩ :=
    (h { name := "", inputs := [], ops := #[] } s' hbare [.ofInt 1, .ofInt 0]).forward 4 _ t₁ (executeFor_of_run rfl hrun)
  rw [hframes] at hvalues hrun' hd
  refine ⟨p, s', hpeel, t₂, hrun', ?_⟩
  rw [hd.frame]
  exact hvalues

/-- An addition that overflows. -/
def sumOp : Op := { code := .intAddOvf, args := [.ofInt Int64.maxValue.toInt, .ofInt 1], result := some rightBox }

/-- A loop that asks, at its start, whether the round before has overflowed. -/
def overflowBody : List Op := [testOp 0 .guardNoOverflow [] [leftBox], testOp 1 .guardFalse [leftBox] [leftBox], sumOp]

def overflowStore : Store := { guards := #[{ code := .guardNoOverflow }, { code := .guardFalse }], boxes := 2 }

theorem through_overflow {c : CodeCache} {t : TargetId} (hops : (c.unit u).ops.toList = labelAt t [.box leftBox] :: (overflowBody ++ behind))
    (hfree : ∀ g, c.bridge? (.guard g) = none) (s : Store) (cell : CellId) :
    ∃ s₁, Run.Through c s.frames.size u 0 4 (entered s cell [leftBox] [some (.ofInt 0)]) s₁ ∧ s.frames.size < s₁.frames.size ∧
      (s₁.frame s.frames.size).overflow = true := by
  have hat (k : Nat) : (c.unit u).ops[k]? = (labelAt t [.box leftBox] :: (overflowBody ++ behind))[k]? := by
    rw [← hops, Array.getElem?_toList]
  generalize hs₀ : entered s cell [leftBox] [some (.ofInt 0)] = s₀
  have hin : s.frames.size < s₀.frames.size := by simp [← hs₀, entered]
  have hframe : s₀.frame s.frames.size = { env := Run.bind {} [leftBox] [some (.ofInt 0)], token := some cell } := by
    rw [← hs₀, frame_entered]
  have hleft : Exec.resolve (s₀.frame s.frames.size) (.box leftBox) = some (.ofInt 0) := Run.resolve_bind (by rw [hframe]) rfl
  have hclear : Run.holds s₀ (s₀.frame s.frames.size) (testOp 0 .guardNoOverflow [] [leftBox]) = true := by
    simp [Run.holds, testOp, hframe]
  have hzero : Run.holds s₀ (s₀.frame s.frames.size) (testOp 1 .guardFalse [leftBox] [leftBox]) = true := by
    rw [holds_guardFalse hleft]
    decide
  have hsum : Run.advance c s.frames.size ⟨u, 3⟩ s₀ = .ok (.next ⟨u, 4⟩) (s₀.updateFrame s.frames.size (Run.finishOp sumOp (.error .overflow))) := by
    rw [Run.advance_eq (hat 3) (by decide), if_neg (by decide), if_neg (by decide)]
    have hexpect : Run.expect (c.unit u) 3 sumOp = id := rfl
    rw [bind_of_ok (show Run.executeOp s.frames.size (c.unit u) 3 sumOp s₀ = .ok ⟨⟩ _ by
      rw [Run.executeOp_eq (by decide), hexpect, Store.updateFrame_id, Run.perform_eq]
      rfl)]
    rfl
  refine ⟨_, .step (Run.advance_label (hat 0)) (.step (Run.advance_pass (hat 1) rfl (by decide) (hfree 0) hclear)
    (.step (Run.advance_pass (hat 2) rfl (by decide) (hfree 1) hzero) (.step hsum (.here _ _)))), ?_, ?_⟩
  · simpa using hin
  · rw [Store.frame_updateFrame hin, Run.finishOp_overflow]

/-- The next round of the plain loop sees that. -/
theorem run_overflow {c : CodeCache} {t : TargetId} (hops : (c.unit u).ops.toList = plainLoop t [leftBox] overflowBody [.ofInt 1])
    (hlabel : c.label? t = some ⟨u, 0⟩) (hfree : ∀ g, c.bridge? (.guard g) = none) (s : Store) (cell : CellId) :
    ∃ s₁, Run.run c s.frames.size 6 ⟨u, 0⟩ (entered s cell [leftBox] [some (.ofInt 0)]) = .ok ⟨⟩ s₁ ∧
      (s₁.frame s.frames.size).descr = some (.guard 0) := by
  have hat (k : Nat) : (c.unit u).ops[k]? = (plainLoop t [leftBox] overflowBody [.ofInt 1])[k]? := by
    rw [← hops, Array.getElem?_toList]
  obtain ⟨s₁, hthrough, hin₁, hover₁⟩ := through_overflow (show _ = _ :: (overflowBody ++ [jumpTo t [.ofInt 1]]) from hops) hfree s cell
  rw [show 6 = 2 + (4 - 0) from rfl, Run.run_through hthrough, Run.run_of_next (Run.advance_jump (hat 4) hlabel (hat 0))]
  generalize hs₂ : s₁.updateFrame _ _ = s₂
  have hin₂ : s.frames.size < s₂.frames.size := by simpa [← hs₂] using hin₁
  have hover₂ : (s₂.frame s.frames.size).overflow = true := by
    rw [← hs₂, Store.frame_updateFrame hin₁]
    exact hover₁
  have hleave : Run.holds s₂ (s₂.frame s.frames.size) (testOp 0 .guardNoOverflow [] [leftBox]) = false := by
    simp [Run.holds, testOp, hover₂]
  refine ⟨_, Run.run_of_exit (Run.advance_leave (hat 1) rfl (hfree 0) hleave) 0, ?_⟩
  rw [Store.frame_updateFrame hin₂]
  rfl

/-- In the unrolled loop the constant of the second label comes between them. -/
theorem run_overflow_copy {c : CodeCache} {t l : TargetId}
    (hops : (c.unit u).ops.toList = labelAt t [.box leftBox] :: (overflowBody ++ Run.move b (.int 1) :: labelAt l [.box b] ::
      testOp 2 .guardNoOverflow [] [b] :: testOp 3 .guardFalse [b] [b] :: behind))
    (hfree : ∀ g, c.bridge? (.guard g) = none) (s : Store) (cell : CellId) :
    ∃ s₁, Run.run c s.frames.size 8 ⟨u, 0⟩ (entered s cell [leftBox] [some (.ofInt 0)]) = .ok ⟨⟩ s₁ ∧
      (s₁.frame s.frames.size).descr = some (.guard 3) := by
  have hat (k : Nat) : (c.unit u).ops[k]? = (labelAt t [.box leftBox] :: (overflowBody ++ Run.move b (.int 1) :: labelAt l [.box b] ::
      testOp 2 .guardNoOverflow [] [b] :: testOp 3 .guardFalse [b] [b] :: behind))[k]? := by
    rw [← hops, Array.getElem?_toList]
  have hcode : (testOp 2 .guardNoOverflow [] [b]).code ≠ .guardException := by simp [testOp]
  obtain ⟨s₁, hthrough, hin₁, -⟩ := through_overflow hops hfree s cell
  rw [show 8 = 4 + (4 - 0) from rfl, Run.run_through hthrough, Run.run_of_next (Run.advance_move (hat 4)),
    Run.run_of_next (Run.advance_label (hat 5))]
  generalize hs₂ : s₁.updateFrame _ _ = s₂
  have hin₂ : s.frames.size < s₂.frames.size := by simpa [← hs₂] using hin₁
  have hclear : Run.holds s₂ (s₂.frame s.frames.size) (testOp 2 .guardNoOverflow [] [b]) = true := by
    simp [Run.holds, testOp, ← hs₂, Store.frame_updateFrame hin₁, Run.finishOp_overflow]
  have hone : Exec.resolve (s₂.frame s.frames.size) (.box b) = some (.ofInt 1) := by
    simp [Exec.resolve, ← hs₂, Store.frame_updateFrame hin₁, Run.finishOp_env, Run.move, Run.resultOf, Value.ofInt]
  have hleave : Run.holds s₂ (s₂.frame s.frames.size) (testOp 3 .guardFalse [b] [b]) = false := by
    rw [holds_guardFalse hone]
    decide
  rw [Run.run_of_next (Run.advance_pass (hat 6) rfl hcode (hfree 2) hclear)]
  refine ⟨_, Run.run_of_exit (Run.advance_leave (hat 7) rfl (hfree 3) hleave) 0, ?_⟩
  rw [Store.frame_updateFrame hin₂]
  rfl

/-- The plain loop leaves by its first guard in the second round, and the unrolled one by the copy of the second guard: the operation that
puts a constant into a box has not overflowed. -/
theorem overflow_lost : ∃ p s', peel 0 (preamble 0 1 [leftBox] overflowBody [.ofInt 1]) [leftBox] overflowBody [.ofInt 1] overflowStore = .ok p s' ∧
      Proper overflowStore [leftBox] overflowBody [.ofInt 1] ∧ Bare s' s' (overflowBody ++ p.copy) ∧
      ∃ t t', (alone [leftBox] (plainLoop 0 [leftBox] overflowBody [.ofInt 1])).executeFor 6 0 [some (.ofInt 0)] s' = .ok 0 t ∧
        (alone [leftBox] (p.ops 1)).executeFor 8 0 [some (.ofInt 0)] s' = .ok 0 t' ∧
        (t.frame 0).descr = some (.guard 0) ∧ (t'.frame 0).descr = some (.guard 3) ∧ ¬SameExit 0 overflowBody p.copy t t' := by
  have hpeel : ∃ p s', peel 0 (preamble 0 1 [leftBox] overflowBody [.ofInt 1]) [leftBox] overflowBody [.ofInt 1] overflowStore = .ok p s' ∧
      p.copy = [testOp 2 .guardNoOverflow [] [⟨3, .int⟩], testOp 3 .guardFalse [⟨3, .int⟩] [⟨3, .int⟩], { sumOp with result := some ⟨4, .int⟩ }] ∧
      p.ops 1 = labelAt 0 [.box leftBox] :: (overflowBody ++ Run.move ⟨3, .int⟩ (.int 1) :: labelAt 1 [.box ⟨3, .int⟩] ::
        testOp 2 .guardNoOverflow [] [⟨3, .int⟩] :: testOp 3 .guardFalse [⟨3, .int⟩] [⟨3, .int⟩] ::
        [{ sumOp with result := some ⟨4, .int⟩ }, jumpTo 1 [.ofInt 1]]) ∧
      s'.guards.toList = [{ code := .guardNoOverflow }, { code := .guardFalse }, { code := .guardNoOverflow }, { code := .guardFalse }] ∧
      s'.frames.size = 0 := ⟨_, _, rfl, rfl, rfl, rfl, rfl⟩
  obtain ⟨p, s', hpeel, hcopy, hops, hguards, hframes⟩ := hpeel
  have hproper : Proper overflowStore [leftBox] overflowBody [.ofInt 1] := by
    refine ⟨⟨⟨by decide, by decide, by decide⟩, ⟨by decide, by decide, by decide⟩, ⟨by decide, by decide, by decide⟩, trivial⟩,
      by simp [Value.ofInt], by decide, by decide, fun op hop g hg => ?_⟩
    simp only [overflowBody, mem_cons, not_mem_nil, or_false] at hop
    rcases hop with rfl | rfl | rfl
    · cases hg
      decide
    · cases hg
      decide
    · cases hg
  have hbare : Bare s' s' (overflowBody ++ p.copy) := by
    refine ⟨fun _ _ => rfl, .of_forall fun d hd => ?_⟩
    rw [← Array.mem_toList_iff, hguards] at hd
    simp only [mem_cons, not_mem_nil, or_false] at hd
    rcases hd with rfl | rfl | rfl | rfl <;> rfl
  obtain ⟨t, hrun, hdescr⟩ := run_overflow (c := alone [leftBox] (plainLoop 0 [leftBox] overflowBody [.ofInt 1])) (u := 0) rfl rfl (fun _ => rfl) s' 0
  obtain ⟨t', hrun', hdescr'⟩ := run_overflow_copy (c := alone [leftBox] (p.ops 1)) (u := 0) hops (fun _ => rfl) s' 0
  have hplain : (alone [leftBox] (plainLoop 0 [leftBox] overflowBody [.ofInt 1])).executeFor 6 0 [some (.ofInt 0)] s' = _ :=
    executeFor_of_run rfl hrun
  have hpeeled : (alone [leftBox] (p.ops 1)).executeFor 8 0 [some (.ofInt 0)] s' = _ := executeFor_of_run rfl hrun'
  rw [hframes] at hdescr hdescr' hplain hpeeled
  refine ⟨p, s', hpeel, hproper, hbare, t, t', hplain, hpeeled, hdescr, hdescr', ?_⟩
  rintro ⟨k, op, op', hop, hop', -, hd⟩
  have hop₀ : op.descr = some (.guard 0) := hd.descr.symm.trans hdescr
  have hop₃ : op'.descr = some (.guard 3) := by rw [← hdescr', hd.frame]
  rw [hcopy] at hop'
  match k, hop, hop' with
  | 0, hop, .inl e =>
    rw [e, hop₀] at hop₃
    cases hop₃
  | 0, hop, .inr e =>
    cases e
    cases hop₃
  | 1, hop, _ =>
    cases hop
    cases hop₀
  | 2, hop, _ =>
    cases hop
    cases hop₀

end Peel
end FlowCompiler.Trace
