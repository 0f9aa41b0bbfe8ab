import FlowCompiler.Proofs.Lookup
import FlowCompiler.Proofs.Peeling.Steps

/-!
# Peeled loops

A loop that jumps back to its label, and the loop that peeling makes of it: the body, a second label, and a copy of the body that jumps
back to that one.  They run side by side.  The first round of the one is the body of the other, and each later round is the copy.  The
second loop is behind only when it passes from the one to the other, by the operations that give the second label its constants.
-/

/-! ## From one round to the next

The boxes of a label take the values of the arguments all at once: it does not matter that an argument is a box of the label itself,
or that it is there twice.  In the copy of a body an input goes by the name that the second label has for it, so what the first label
says of the inputs the second one says of their names.  Before the second label is reached for the first time, the boxes that stand for
constants are given their values. -/

namespace FlowCompiler.Trace.Run

open List

open Peel (Renaming Materialized)

/-! ### Binding -/

theorem getElem?_bind (env : Std.HashMap Box (Option Value)) (boxes : List Box) (values : List (Option Value)) (b : Box) :
    (bind env boxes values)[b]? = ((boxes.zip values).reverse.lookup b).or env[b]? := by
  rw [bind]
  induction boxes.zip values generalizing env with
  | nil => rfl
  | cons p ps ih =>
    rw [foldl_cons, ih, reverse_cons, lookup_append, Option.or_assoc, Std.HashMap.getElem?_insert]
    congr 1
    by_cases h : p.1 = b
    · rw [if_pos (beq_iff_eq.2 h), Entries.lookup_cons, if_pos (beq_iff_eq.2 h.symm)]
      rfl
    · rw [if_neg (by simpa using h), Entries.lookup_cons, if_neg (by simpa using Ne.symm h)]
      rfl

variable {boxes : List Box} {b : Box}

theorem resolve_bind {f : Frame} {env : Std.HashMap Box (Option Value)} {values : List (Option Value)} {v : Option Value}
    (hf : f.env = bind env boxes values) (h : (boxes.zip values).reverse.lookup b = some v) : Exec.resolve f (.box b) = v := by
  rw [Exec.resolve, hf, getElem?_bind, h]
  rfl

theorem exists_lookup_zip {α : Type} {values : List α} (hlen : boxes.length ≤ values.length) (hb : b ∈ boxes) :
    ∃ v, (boxes.zip values).reverse.lookup b = some v ∧ v ∈ values := by
  have hmem : b ∈ (boxes.zip values).reverse.map Prod.fst := by
    rw [map_reverse, mem_reverse, map_fst_zip hlen]
    exact hb
  obtain ⟨v, hv⟩ := Option.isSome_iff_exists.1 (Entries.isSome_lookup.2 hmem)
  exact ⟨v, hv, (of_mem_zip (mem_reverse.1 (Entries.mem_of_lookup hv))).2⟩

theorem lookup_zip_of_unique {xs : List Box} {args : List Value} {α : Type} (g : Value → α) {x : Box} {v : Value} (hx : (x, v) ∈ xs.zip args)
    (hunique : ∀ w, (x, w) ∈ xs.zip args → w = v) : (xs.zip (args.map g)).reverse.lookup x = some (g v) := by
  have hzip : (xs.zip (args.map g)).reverse = (xs.zip args).reverse.map fun p => (p.1, g p.2) := by
    rw [zip_map_right, map_reverse]
    rfl
  rw [hzip, Entries.lookup_map_snd]
  have hmem : x ∈ (xs.zip args).reverse.map Prod.fst := mem_map.2 ⟨_, mem_reverse.2 hx, rfl⟩
  obtain ⟨w, hw⟩ := Option.isSome_iff_exists.1 (Entries.isSome_lookup.2 hmem)
  rw [hw, hunique w (mem_reverse.1 (Entries.mem_of_lookup hw))]
  rfl

/-! ### Names of inputs -/

variable {gs : Array GuardDescr} {i : FrameId} {inputs xs : List Box} {args : List Value} {f f' g g' : Frame} {s s' : Store}

theorem agrees_inputs (hlen : inputs.length ≤ args.length) (hxs : xs.length = args.length)
    (hg : g.env = bind f.env inputs (args.map (Exec.resolve f)))
    (hval : ∀ x v, (x, v) ∈ xs.zip args → ∃ w, Exec.resolve f v = some w ∧ Exec.resolve g' (.box x) = some w) :
    g.Agrees inputs (inputs.zip (xs.map .box)).reverse g' := by
  intro b hb
  have hpairs : inputs.length ≤ (xs.zip args).length := by simpa [hxs] using hlen
  obtain ⟨⟨x, v⟩, hlookup, hmem⟩ := exists_lookup_zip hpairs hb
  obtain ⟨w, hw, hw'⟩ := hval x v hmem
  have hsnd : (xs.zip args).map Prod.snd = args := map_snd_zip (Nat.le_of_eq hxs.symm)
  have hfst : (xs.zip args).map Prod.fst = xs := map_fst_zip (Nat.le_of_eq hxs)
  have hplain : (inputs.zip (args.map (Exec.resolve f))).reverse = (inputs.zip (xs.zip args)).reverse.map fun p => (p.1, Exec.resolve f p.2.2) := by
    rw [map_reverse, ← hsnd, map_map, zip_map_right, hsnd]
    rfl
  have hnames : (inputs.zip (xs.map .box)).reverse = (inputs.zip (xs.zip args)).reverse.map fun p => (p.1, Value.box p.2.1) := by
    rw [map_reverse, ← hfst, map_map, zip_map_right, hfst]
    rfl
  refine ⟨w, ?_, ?_⟩
  · rw [← hw]
    exact resolve_bind hg (by rw [hplain, Entries.lookup_map_snd (fun p : Box × Value => Exec.resolve f p.2), hlookup]; rfl)
  · rw [Renaming.value, hnames, Entries.lookup_map_snd (fun p : Box × Value => Value.box p.1), hlookup]
    exact hw'

/-! ### Jumps -/

variable {c : CodeCache} {u : UnitId} {k n m : Nat} {op : Op}

/-- A jump to a label. -/
def jumpTo (t : TargetId) (args : List Value) : Op := { code := .jump, args, descr := some (.target t) }

/-- A label. -/
def labelAt (t : TargetId) (args : List Value) : Op := { code := .label, args, descr := some (.target t) }

theorem advance_label {t : TargetId} (h : (c.unit u).ops[k]? = some (labelAt t args)) : advance c i ⟨u, k⟩ s = .ok (.next ⟨u, k + 1⟩) s := by
  unfold advance
  rw [h]
  rfl

theorem advance_jump {t : TargetId} {p : Position} (h : (c.unit u).ops[k]? = some (jumpTo t args)) (ht : c.label? t = some p)
    (hlabel : (c.unit p.unit).ops[p.pc]? = some (labelAt t (xs.map .box))) : advance c i ⟨u, k⟩ s = .ok (.next { p with pc := p.pc + 1 })
      (s.updateFrame i fun f => { f with env := bind f.env xs (args.map (Exec.resolve f)) }) := by
  have hbound (f : Frame) : ((xs.map Value.box).zip (operands f (jumpTo t args))).filterMap (fun p => p.1.box?.map fun b => (b, p.2)) =
      xs.zip (args.map (Exec.resolve f)) := by
    have hoperands : operands f (jumpTo t args) = args.map (Exec.resolve f) := by
      simp only [operands, Exec.resolveAll, jumpTo, map_map]
      rfl
    rw [hoperands, zip_map_left, filterMap_map]
    exact filterMap_some
  unfold advance
  rw [h]
  change (jump c i (c.unit u) (jumpTo t args) >>= fun p => pure (.next p) : StoreM Advance) s = _
  have hjump : jump c i (c.unit u) (jumpTo t args) s = .ok { p with pc := p.pc + 1 }
      (s.updateFrame i fun f => { f with env := bind f.env xs (args.map (Exec.resolve f)) }) := by
    have hsame : (fun f : Frame => { f with env := (((xs.map Value.box).zip (operands f (jumpTo t args))).filterMap
        fun p => p.1.box?.map fun b => (b, p.2)).foldl (fun env p => env.insert p.1 p.2) f.env }) =
        fun f : Frame => { f with env := bind f.env xs (args.map (Exec.resolve f)) } := funext fun f => by
      rw [hbound]
      rfl
    unfold jump
    simp only [jumpTo, ht, hlabel]
    exact congrArg (fun bound => EStateM.Result.ok { p with pc := p.pc + 1 } (s.updateFrame i bound)) hsame
  rw [bind_of_ok hjump]
  rfl

/-! ### Constants of the second label -/

/-- The operation that gives a box the value of a constant. -/
def move (b : Box) (c : Const) : Op := { code := .sameAs, args := [.const c], result := some b }

theorem advance_move {v : Const} (h : (c.unit u).ops[k]? = some (move b v)) :
    advance c i ⟨u, k⟩ s = .ok (.next ⟨u, k + 1⟩) (s.updateFrame i (finishOp (move b v) (.ok (some (.const v))))) := by
  have hexpect : expect (c.unit u) k (move b v) = id := rfl
  have hperform : perform i (move b v) s = .ok ⟨⟩ (s.updateFrame i (finishOp (move b v) (.ok (some (.const v))))) := perform_eq i _ s
  rw [advance_eq h (by simp [move]), if_neg (by simp [move]), if_neg (show ¬(move b v).isGuard = true from Bool.false_ne_true)]
  rw [bind_of_ok (show executeOp i (c.unit u) k (move b v) s = _ by
    rw [executeOp_eq (by simp [move]), hexpect, Store.updateFrame_id, hperform])]
  rfl

theorem ops_at {before behind : List Op} (h : (c.unit u).ops.toList = before ++ op :: behind) :
    (c.unit u).ops[before.length]? = some op ∧ (c.unit u).ops[before.length + 1]? = behind.head? := by
  constructor
  · rw [← Array.getElem?_toList, h]
    simp
  · rw [← Array.getElem?_toList, h, getElem?_append_right (by omega)]
    simp [head?_eq_getElem?]

/-- What the operations in front of the second label do to the frame. -/
structure Crossed (i : FrameId) (n : Nat) (args : List Value) (moves : List Op) (xs : List Box) (s t : Store) : Prop where
  size : t.frames.size = s.frames.size
  apart : ∀ gs s₀, Apart gs i s₀ s → (s₀.frame i).pendingGuard = none → Apart gs i s₀ t
  old : ∀ b : Box, b.id ≤ n → (t.frame i).env[b]? = (s.frame i).env[b]?
  new : ∀ x v, (x, .const v) ∈ xs.zip args → (t.frame i).env[x]? = some (some (.const v))
  same : moves = [] → t = s

theorem apart_move {v : Const} {s₀ : Store} (h : Apart gs i s₀ s) (hidle : (s₀.frame i).pendingGuard = none) :
    Apart gs i s₀ (s.updateFrame i (finishOp (move b v) (.ok (some (.const v))))) := by
  refine h.updateRight ?_
  exact ⟨h.here.token, h.here.exc, h.here.forced, h.here.saved, h.here.descr, by rw [hidle]; exact .none⟩

theorem through_moves {args : List Value} {moves behind : List Op} (hm : Materialized n args moves xs m) (before : List Op)
    (hops : (c.unit u).ops.toList = before ++ (moves ++ behind)) (s : Store) (hi : i < s.frames.size) :
    ∃ t, Through c i u before.length (before.length + moves.length) s t ∧ Crossed i n args moves xs s t := by
  induction hm generalizing before s with
  | nil => exact ⟨s, .here _ s, rfl, fun _ _ h _ => h, fun _ _ => rfl, fun _ _ h => by simp at h, fun _ => rfl⟩
  | box b _ ih =>
    obtain ⟨t, hthrough, ht⟩ := ih before hops s hi
    refine ⟨t, hthrough, ht.size, ht.apart, ht.old, fun x v hx => ?_, ht.same⟩
    rcases mem_cons.1 hx with e | hx
    · cases e
    · exact ht.new x v hx
  | @const n m args moves xs v hm ih =>
    have hop : (c.unit u).ops.toList = before ++ move ⟨n + 1, v.kind⟩ v :: (moves ++ behind) := hops
    have hstep := advance_move (i := i) (s := s) (ops_at hop).1
    obtain ⟨t, hthrough, ht⟩ := ih (before ++ [move ⟨n + 1, v.kind⟩ v]) (by simpa using hop)
      (s.updateFrame i (finishOp (move ⟨n + 1, v.kind⟩ v) (.ok (some (.const v))))) (by simpa using hi)
    have hlen : (before ++ [move ⟨n + 1, v.kind⟩ v]).length = before.length + 1 := by simp
    rw [hlen] at hthrough
    have henv (b : Box) : ((s.updateFrame i (finishOp (move ⟨n + 1, v.kind⟩ v) (.ok (some (.const v))))).frame i).env[b]? =
        if (⟨n + 1, v.kind⟩ : Box) = b then some (some (.const v)) else (s.frame i).env[b]? := by
      rw [Store.frame_updateFrame hi, finishOp_env]
      simp [move, resultOf, Std.HashMap.getElem?_insert]
    refine ⟨t, .step hstep (by rwa [length_cons, ← Nat.add_assoc, Nat.add_right_comm]), ?_,
      fun gs s₀ h hidle => ?_, fun b hb => ?_, fun x w hx => ?_, ?_⟩
    · rw [ht.size]
      simp
    · exact ht.apart gs s₀ (apart_move h hidle) hidle
    · rw [ht.old b (by omega), henv, if_neg]
      rintro rfl
      exact absurd hb (by simp)
    · rcases mem_cons.1 hx with e | hx
      · cases e
        rw [ht.old _ (Nat.le_refl _), henv, if_pos rfl]
      · exact ht.new x w hx
    · intro e
      cases e

/-! ### Runs -/

variable {p : Position}

section

variable {q : Position} {t : Store} {e : Failure}

theorem run_succ (n : Nat) : run c i (n + 1) p s = match advance c i p s with
    | .ok .exit s => .ok ⟨⟩ s
    | .ok (.next p) s => run c i n p s
    | .error f s => .error f s := rfl

theorem run_of_exit (h : advance c i p s = .ok .exit t) (n : Nat) : run c i (n + 1) p s = .ok ⟨⟩ t := by rw [run_succ, h]

theorem run_of_next (h : advance c i p s = .ok (.next q) t) (n : Nat) : run c i (n + 1) p s = run c i n q t := by rw [run_succ, h]

theorem run_of_error (h : advance c i p s = .error e t) (n : Nat) : run c i (n + 1) p s = .error e t := by rw [run_succ, h]

end

theorem run_mono {m : Nat} (hmn : m ≤ n) {t : Store} (h : run c i m p s = .ok ⟨⟩ t) : run c i n p s = .ok ⟨⟩ t := by
  induction m generalizing n p s with
  | zero => cases h
  | succ m ih =>
    obtain ⟨n, rfl⟩ : ∃ k, n = k + 1 := ⟨n - 1, by omega⟩
    cases ha : advance c i p s with
    | error e s' =>
      rw [run_of_error ha] at h
      cases h
    | ok a s' =>
      cases a with
      | exit => rwa [run_of_exit ha] at h ⊢
      | next q =>
        rw [run_of_next ha] at h ⊢
        exact ih (by omega) h

theorem run_through {l : Nat} {t : Store} (h : Through c i u k l s t) (n : Nat) : run c i (n + (l - k)) ⟨u, k⟩ s = run c i n ⟨u, l⟩ t := by
  induction h with
  | here => simp
  | @step k l s t s' h rest ih =>
    have hle := rest.le
    rw [show n + (l - k) = n + (l - (k + 1)) + 1 by omega, run_of_next h]
    exact ih

/-- A run that ends comes through all operations that do not leave. -/
theorem lt_of_run_through {l : Nat} {t t' : Store} (h : Through c i u k l s t) (hr : run c i n ⟨u, k⟩ s = .ok ⟨⟩ t') : l - k < n := by
  induction h generalizing n with
  | here =>
    cases n with
    | zero => cases hr
    | succ n => omega
  | @step k l s t s' h rest ih =>
    cases n with
    | zero => cases hr
    | succ n =>
      rw [run_of_next h] at hr
      have := ih hr
      omega

end FlowCompiler.Trace.Run

namespace FlowCompiler.Trace.Peel

open Run (jumpTo labelAt)

variable {known : List Box}

/-! ## The peeled loop -/

/-- A loop that jumps back to its label. -/
def plainLoop (first : TargetId) (inputs : List Box) (body : List Op) (jumpArgs : List Value) : List Op :=
  labelAt first (inputs.map .box) :: (body ++ [jumpTo first jumpArgs])

/-- The same operations up to a second label, where the jump would be. -/
def preamble (first second : TargetId) (inputs : List Box) (body : List Op) (jumpArgs : List Value) : List Op :=
  labelAt first (inputs.map .box) :: (body ++ [labelAt second jumpArgs])

/-- A jump back to a unit goes to a label of it. -/
def aim (t : TargetId) (op : Op) : Op :=
  match op.code, op.descr with
  | .jump, some (.cell _) => { op with descr := some (.target t) }
  | _, _ => op

variable {r : Renaming} {op : Op} {behind k : Nat} {op' : Op}

theorem aim_of_ne {t : TargetId} (h : op.code ≠ .jump) : aim t op = op := by
  unfold aim
  split
  · exact absurd ‹_› h
  · rfl

/-- The operations of a peeled loop. -/
def Peeled.ops (p : Peeled) (second : TargetId) : List Op := p.head ++ p.part.map (aim second)

/-- The copy of the body in a peeled loop. -/
def Peeled.copy (p : Peeled) : List Op := p.part.tail.dropLast

/-- A loop as it is recorded: a value for each input of the next round, and nothing that is not there yet. -/
structure Proper (s : Store) (inputs : List Box) (body : List Op) (jumpArgs : List Value) : Prop where
  fits : Scoped inputs body
  closes : ∀ b, .box b ∈ jumpArgs → b ∈ defined inputs body
  arity : inputs.length ≤ jumpArgs.length
  boxes : ∀ b ∈ defined inputs body, b.id ≤ s.boxes
  guards : ∀ op ∈ body, ∀ g, op.descr = some (.guard g) → g < s.guards.size

/-- What a peeled loop is made of besides the body. -/
structure Parts where
  moves : List Op
  names : List Box
  copy : List Op
  naming : Renaming

def Parts.ops (q : Parts) (first second : TargetId) (inputs : List Box) (body : List Op) (jumpArgs : List Value) : List Op :=
  labelAt first (inputs.map .box) ::
    (body ++ (q.moves ++ labelAt second (q.names.map .box) :: (q.copy ++ [jumpTo second (jumpArgs.map q.naming.value)])))

/-- The parts that peeling makes. -/
structure Parts.Made (q : Parts) (s s' : Store) (inputs : List Box) (body : List Op) (jumpArgs : List Value) : Prop where
  materialized : ∃ m, Materialized s.boxes jumpArgs q.moves q.names m
  copied : ∃ t, t.guards = s.guards ∧ CopiedAll inputs t (inputs.zip (q.names.map .box)).reverse body s' q.naming q.copy

theorem names_le {s : Store} {inputs : List Box} {body : List Op} {jumpArgs : List Value} (h : Proper s inputs body jumpArgs)
    {moves : List Op} {names : List Box} {m : Nat} (hm : Materialized s.boxes jumpArgs moves names m) {x y : Box} (hx : x ∈ inputs)
    (hy : Renaming.value (inputs.zip (names.map .box)).reverse (.box x) = .box y) : y.id ≤ m := by
  have hlen : inputs.length ≤ (names.map Value.box).length := by simpa [hm.length_eq] using h.arity
  obtain ⟨v, hv, hmem⟩ := Run.exists_lookup_zip hlen hx
  obtain ⟨b, hb, rfl⟩ := List.mem_map.1 hmem
  rw [Renaming.value, hv] at hy
  cases hy
  -- a name is a box among the arguments, or a new one
  have hfst : y ∈ (names.zip jumpArgs).map Prod.fst := by
    rw [List.map_fst_zip (Nat.le_of_eq hm.length_eq)]
    exact hb
  obtain ⟨⟨_, w⟩, hw, rfl⟩ := List.mem_map.1 hfst
  rcases hm.of_mem hw with rfl | ⟨-, hle, -⟩
  · exact Nat.le_trans (h.boxes _ (h.closes _ (List.of_mem_zip hw).2)) hm.le
  · exact hle

theorem peel_eq {s : Store} {inputs : List Box} {body : List Op} {jumpArgs : List Value} (h : Proper s inputs body jumpArgs)
    (cell : CellId) (first second : TargetId) : ∃ p q s', peel cell (preamble first second inputs body jumpArgs) inputs body jumpArgs s = .ok p s' ∧
      p.ops second = q.ops first second inputs body jumpArgs ∧ p.copy = q.copy ∧ Parts.Made q s s' inputs body jumpArgs := by
  obtain ⟨moves, names, s₁, e₁, hm, hg⟩ := materialize_eq jumpArgs s
  obtain ⟨r, copy, s₂, e₂, hc⟩ := copyOps_eq (inputs.zip (names.map .box)).reverse s₁ h.fits (fun x hx y hy => names_le h hm hx hy)
    fun op hop g hdescr => by
      rw [hg]
      exact h.guards op hop g hdescr
  have hlast : ((preamble first second inputs body jumpArgs).getLast?).getD default = labelAt second jumpArgs := by
    change (((labelAt first (inputs.map .box) :: body) ++ [labelAt second jumpArgs]).getLast?).getD default = _
    rw [List.getLast?_concat]
    rfl
  have hdrop : (preamble first second inputs body jumpArgs).dropLast = labelAt first (inputs.map .box) :: body := by
    change ((labelAt first (inputs.map .box) :: body) ++ [labelAt second jumpArgs]).dropLast = _
    rw [List.dropLast_concat]
  refine ⟨⟨labelAt first (inputs.map .box) :: body ++ moves, labelAt second (names.map .box) :: copy ++
    [{ code := .jump, args := jumpArgs.map r.value, descr := some (.cell cell) }]⟩, ⟨moves, names, copy, r⟩, s₂, ?_, ?_, ?_, ⟨⟨_, hm⟩, s₁, hg, hc⟩⟩
  · unfold peel
    simp only [hlast, hdrop]
    change (materialize jumpArgs >>= fun p => copyOps (inputs.zip p.2).reverse body >>= fun q => pure (Peeled.mk _ _) : StoreM Peeled) s = _
    rw [bind_of_ok e₁, bind_of_ok e₂]
    rfl
  · have hcopy : copy.map (aim second) = copy :=
      (List.map_congr_left (g := id) fun op hop => aim_of_ne (hc.straight op hop).2).trans (List.map_id copy)
    simp only [Peeled.ops, Parts.ops, List.map_append, List.map_cons, hcopy, List.map_nil]
    simp [aim, labelAt, jumpTo]
  · simp [Peeled.copy]

/-! ## Side by side -/

/-- Overflow guards ask about operations in front of them, not about the round before. -/
def Settles : List Op → Prop
  | [] => True
  | op :: rest => op.asksOverflow = false ∧ (op.setsOverflow = true ∨ Settles rest)

/-- Two runs have left by the same operation of the body, in the second one perhaps in its copy. -/
def SameExit (i : FrameId) (body copy : List Op) (s s' : Store) : Prop :=
  ∃ (k : Nat) (op op' : Op), body[k]? = some op ∧ (op' = op ∨ copy[k]? = some op') ∧ op'.code = op.code ∧ Departed i op op' s s'

/-- Both loops are loaded, and nothing is attached to their guards. -/
structure Loaded (c c' : CodeCache) (u u' : UnitId) (gs : Array GuardDescr) (n : Nat) (first second : TargetId) (inputs : List Box)
    (body : List Op) (jumpArgs : List Value) (q : Parts) : Prop where
  ops : (c.unit u).ops.toList = plainLoop first inputs body jumpArgs
  ops' : (c'.unit u').ops.toList = q.ops first second inputs body jumpArgs
  label : c.label? first = some ⟨u, 0⟩
  label' : c'.label? second = some ⟨u', body.length + q.moves.length + 1⟩
  bridges : ∀ op ∈ body, op.descr.bind c.bridge? = none ∧ op.descr.bind c'.bridge? = none
  bridges' : ∀ op ∈ q.copy, op.descr.bind c'.bridge? = none
  blank : Blank gs body
  closes : ∀ b, .box b ∈ jumpArgs → b ∈ defined inputs body
  arity : inputs.length ≤ jumpArgs.length
  boxes : ∀ b ∈ defined inputs body, b.id ≤ n
  materialized : ∃ m, Materialized n jumpArgs q.moves q.names m
  twins : Twins gs inputs (inputs.zip (q.names.map .box)).reverse body q.copy q.naming
  settles : (∀ v ∈ jumpArgs, v.isConst = false) ∨ Settles body

section Side

variable {c c' : CodeCache} {u u' : UnitId} {gs : Array GuardDescr} {i : FrameId} {n : Nat} {first second : TargetId} {inputs : List Box}
  {body : List Op} {jumpArgs : List Value} {q : Parts} {s s' : Store} {p p' : Position}

variable (u u' gs i inputs body q) in

/-- Two runs are at the same place of a round.  The second run may be behind by some steps. -/
inductive Sides : Nat → Position → Store → Position → Store → Prop
  /-- In the first round both runs have the body before them. -/
  | first {known : List Box} {done rest : List Op} {s s' : Store} (hbody : body = done ++ rest) (hknown : defined known rest = defined inputs body)
      (hs : Scoped known rest) (h : Abreast gs i known [] s s') (ho : (s'.frame i).overflow = (s.frame i).overflow) :
      Sides q.moves.length ⟨u, done.length + 1⟩ s ⟨u', done.length + 1⟩ s'
  /-- In a later round the second run has the copy before it. -/
  | later {known : List Box} {r : Renaming} {done rest done' rest' : List Op} {s s' : Store} (hbody : body = done ++ rest)
      (hcopy : q.copy = done' ++ rest') (hlen : done'.length = done.length) (hknown : defined known rest = defined inputs body)
      (ht : Twins gs known r rest rest' q.naming) (h : Abreast gs i known r s s')
      (ho : (s'.frame i).overflow = (s.frame i).overflow ∨ Settles body ∧ Settles rest) :
      Sides 0 ⟨u, done.length + 1⟩ s ⟨u', body.length + q.moves.length + 2 + done.length⟩ s'

variable (c' u u' gs i inputs body q) in

/-- What the second run makes of a step of the first one: it catches up with some steps and takes the same step. -/
inductive Follows (behind : Nat) (p' : Position) (s' : Store) : EStateM.Result Failure Store Advance → Prop
  | next {k : Nat} {p q' : Position} {t t₁ t' : Store} (hk : k ≤ behind) (ht : Run.Through c' i p'.unit p'.pc (p'.pc + k) s' t₁)
      (ha : Run.advance c' i ⟨p'.unit, p'.pc + k⟩ t₁ = .ok (.next q') t') (h : Sides u u' gs i inputs body q (behind - k) p t q' t') :
      Follows behind p' s' (.ok (.next p) t)
  | exit {t t' : Store} (ha : Run.advance c' i p' s' = .ok .exit t') (h : SameExit i body q.copy t t') : Follows behind p' s' (.ok .exit t)
  | error {e e' : Failure} {t t' : Store} (ha : Run.advance c' i p' s' = .error e' t') : Follows behind p' s' (.error e t)

theorem follows_of_parallel {pc pc' : Nat} {P : Store → Store → Prop} {x : EStateM.Result Failure Store Advance} (hop : body[k]? = some op)
    (hop' : op' = op ∨ q.copy[k]? = some op') (hcode : op'.code = op.code)
    (h : Parallel (Onward i op op' ⟨u, pc + 1⟩ ⟨u', pc' + 1⟩ P) x (Run.advance c' i ⟨u', pc'⟩ s'))
    (hP : ∀ t t', P t t' → Sides u u' gs i inputs body q behind ⟨u, pc + 1⟩ t ⟨u', pc' + 1⟩ t') :
    Follows c' u u' gs i inputs body q behind ⟨u', pc'⟩ s' x := by
  generalize hy : Run.advance c' i ⟨u', pc'⟩ s' = y at h
  cases h with
  | error e e' t t' => exact .error hy
  | ok ho =>
    cases ho with
    | exit hd => exact .exit hy ⟨k, op, op', hop, hop', hcode, hd⟩
    | next hp => exact .next (k := 0) (Nat.zero_le _) (.here _ _) hy (hP _ _ hp)

namespace Loaded

theorem quiet_target {t t' : TargetId} : Quiet gs (some (.target t)) (some (.target t')) := quiet_of_not_guard (by simp) (by simp)

section

variable (h : Loaded c c' u u' gs n first second inputs body jumpArgs q)
include h

theorem quiet_moves {behind : List Op} : Option.Rel (fun g g' : Op => Quiet gs g.descr g'.descr) ([jumpTo first jumpArgs].head?)
      ((q.moves ++ labelAt second (q.names.map .box) :: behind).head?) := by
  obtain ⟨m, hm⟩ := h.materialized
  cases hq : q.moves with
  | nil => exact .some quiet_target
  | cons op rest =>
    refine .some (quiet_of_not_guard (by simp [jumpTo]) fun g e => ?_)
    rw [hm.descr_eq_none op (by simp [hq])] at e
    cases e

theorem follows_first {done rest : List Op} (hbody : body = done ++ op :: rest) (hknown : defined known (op :: rest) = defined inputs body)
    (hs : Scoped known (op :: rest)) (ha : Abreast gs i known [] s s') (ho : (s'.frame i).overflow = (s.frame i).overflow) :
    Follows c' u u' gs i inputs body q q.moves.length ⟨u', done.length + 1⟩ s' (Run.advance c i ⟨u, done.length + 1⟩ s) := by
  have hplain : (c.unit u).ops.toList = (labelAt first (inputs.map .box) :: done) ++ op :: (rest ++ [jumpTo first jumpArgs]) := by
    rw [h.ops, plainLoop, hbody]
    simp
  have hunrolled : (c'.unit u').ops.toList = (labelAt first (inputs.map .box) :: done) ++ op ::
      (rest ++ (q.moves ++ labelAt second (q.names.map .box) :: (q.copy ++ [jumpTo second (jumpArgs.map q.naming.value)]))) := by
    rw [h.ops', Parts.ops, hbody]
    simp
  have hop : op ∈ body := by simp [hbody]
  have hnext : Option.Rel (fun g g' : Op => Quiet gs g.descr g'.descr) (rest ++ [jumpTo first jumpArgs]).head?
      (rest ++ (q.moves ++ labelAt second (q.names.map .box) :: (q.copy ++ [jumpTo second (jumpArgs.map q.naming.value)]))).head? := by
    cases hr : rest with
    | nil => exact h.quiet_moves
    | cons op₂ rest => exact .some (quiet_self h.blank (by simp [hbody, hr]))
  have htwin : Twin gs known [] op [] op := twin_self hs.1 (quiet_self h.blank hop)
  have hstep := Run.advance_twin (Run.ops_at hplain).1 (Run.ops_at hunrolled).1
    (by rw [(Run.ops_at hplain).2, (Run.ops_at hunrolled).2]; exact hnext) (h.bridges op hop).1 (h.bridges op hop).2 ha htwin fun _ => ho
  refine follows_of_parallel (k := done.length) (by simp [hbody]) (.inl rfl) rfl hstep fun t t' ht => ?_
  have hlen : done.length + 1 = (done ++ [op]).length := by simp
  rw [List.length_cons, hlen]
  exact .first (by simp [hbody]) (show defined (op.result.toList ++ known) rest = _ from hknown) hs.2 ht.1 (ht.2 (.inr ho))

theorem follows_later {done rest done' rest' : List Op} (hbody : body = done ++ op :: rest) (hcopy : q.copy = done' ++ op' :: rest')
    (hlen : done'.length = done.length) (hknown : defined known (op :: rest) = defined inputs body)
    (ht : Twins gs known r (op :: rest) (op' :: rest') q.naming) (ha : Abreast gs i known r s s')
    (ho : (s'.frame i).overflow = (s.frame i).overflow ∨ Settles body ∧ Settles (op :: rest)) :
    Follows c' u u' gs i inputs body q 0 ⟨u', body.length + q.moves.length + 2 + done.length⟩ s' (Run.advance c i ⟨u, done.length + 1⟩ s) := by
  have hplain : (c.unit u).ops.toList = (labelAt first (inputs.map .box) :: done) ++ op :: (rest ++ [jumpTo first jumpArgs]) := by
    rw [h.ops, plainLoop, hbody]
    simp
  have hunrolled : (c'.unit u').ops.toList = (labelAt first (inputs.map .box) :: (body ++ (q.moves ++ labelAt second (q.names.map .box) :: done'))) ++
      op' :: (rest' ++ [jumpTo second (jumpArgs.map q.naming.value)]) := by
    rw [h.ops', Parts.ops, hcopy]
    simp
  have hpc : body.length + q.moves.length + 2 + done.length =
      (labelAt first (inputs.map .box) :: (body ++ (q.moves ++ labelAt second (q.names.map .box) :: done'))).length := by
    simp [hlen]
    omega
  have hop : op ∈ body := by simp [hbody]
  have hop' : op' ∈ q.copy := by simp [hcopy]
  cases ht with
  | cons head tail =>
    have hnext : Option.Rel (fun g g' : Op => Quiet gs g.descr g'.descr) (rest ++ [jumpTo first jumpArgs]).head?
        (rest' ++ [jumpTo second (jumpArgs.map q.naming.value)]).head? := by
      cases tail with
      | nil => exact .some quiet_target
      | cons head₂ _ => exact .some head₂.quiet
    have hasks : op.asksOverflow = true → (s'.frame i).overflow = (s.frame i).overflow := by
      intro hasks
      rcases ho with ho | ⟨-, hno, -⟩
      · exact ho
      · rw [hno] at hasks
        cases hasks
    rw [hpc]
    have hstep := Run.advance_twin (Run.ops_at hplain).1 (Run.ops_at hunrolled).1
      (by rw [(Run.ops_at hplain).2, (Run.ops_at hunrolled).2]; exact hnext) (h.bridges op hop).1 (h.bridges' op' hop') ha head hasks
    refine follows_of_parallel (k := done.length) (by simp [hbody]) (.inr (by simp [hcopy, hlen])) head.code hstep fun t t' ht => ?_
    rw [← hpc, Nat.add_assoc _ done.length 1]
    have hdone : done.length + 1 = (done ++ [op]).length := by simp
    rw [List.length_cons, hdone]
    have hcopied : q.copy = (done' ++ [op']) ++ rest' := by simp [hcopy]
    refine .later (by simp [hbody]) hcopied (by simp [hlen]) (show defined (op.result.toList ++ known) rest = _ from hknown) tail ht.1 ?_
    rcases ho with ho | ⟨hsettles, -, hsets | hrest⟩
    · exact .inl (ht.2 (.inr ho))
    · exact .inl (ht.2 (.inl hsets))
    · exact .inr ⟨hsettles, hrest⟩

/-! ## The end of a round -/

theorem advance_back : Run.advance c i ⟨u, body.length + 1⟩ s = .ok (.next ⟨u, 1⟩)
      (s.updateFrame i fun f => { f with env := Run.bind f.env inputs (jumpArgs.map (Exec.resolve f)) }) := by
  have hlabel : (c.unit u).ops.toList = [] ++ labelAt first (inputs.map .box) :: (body ++ [jumpTo first jumpArgs]) := h.ops
  have hjump : (c.unit u).ops.toList = (labelAt first (inputs.map .box) :: body) ++ jumpTo first jumpArgs :: [] := h.ops
  exact Run.advance_jump (Run.ops_at hjump).1 h.label (Run.ops_at hlabel).1

theorem sides_next {t' : Store} (ha : Abreast gs i known r s s') (hapart : Apart gs i s t')
    (hval : ∀ x v, (x, v) ∈ q.names.zip jumpArgs → ∃ w, Exec.resolve (s.frame i) v = some w ∧ Exec.resolve (t'.frame i) (.box x) = some w)
    (ho : (t'.frame i).overflow = (s.frame i).overflow ∨ Settles body) :
    Sides u u' gs i inputs body q 0 ⟨u, 1⟩ (s.updateFrame i fun f => { f with env := Run.bind f.env inputs (jumpArgs.map (Exec.resolve f)) })
      ⟨u', body.length + q.moves.length + 2⟩ t' := by
  obtain ⟨m, hm⟩ := h.materialized
  have hleft : Apart gs i (s.updateFrame i fun f => { f with env := Run.bind f.env inputs (jumpArgs.map (Exec.resolve f)) }) t' :=
    hapart.updateLeft ⟨hapart.here.token, hapart.here.exc, hapart.here.forced, hapart.here.saved, hapart.here.descr, hapart.here.pending⟩
  have hnext : Abreast gs i inputs (inputs.zip (q.names.map .box)).reverse
      (s.updateFrame i fun f => { f with env := Run.bind f.env inputs (jumpArgs.map (Exec.resolve f)) }) t' := by
    refine ⟨hleft, by simpa using ha.inside, ?_, ?_⟩
    · rw [Store.frame_updateFrame ha.inside]
      exact ha.idle
    · refine Run.agrees_inputs h.arity hm.length_eq ?_ hval
      rw [Store.frame_updateFrame ha.inside]
  refine .later (show body = [] ++ body from rfl) (show q.copy = [] ++ q.copy from rfl) rfl rfl h.twins hnext ?_
  rw [Store.frame_updateFrame ha.inside]
  exact ho.imp_right fun hsettles => ⟨hsettles, hsettles⟩

theorem follows_cross (hknown : known = defined inputs body) (ha : Abreast gs i known [] s s') (ho : (s'.frame i).overflow = (s.frame i).overflow) :
    Follows c' u u' gs i inputs body q q.moves.length ⟨u', body.length + 1⟩ s' (Run.advance c i ⟨u, body.length + 1⟩ s) := by
  subst hknown
  obtain ⟨m, hm⟩ := h.materialized
  have hmoves : (c'.unit u').ops.toList = (labelAt first (inputs.map .box) :: body) ++ (q.moves ++ labelAt second (q.names.map .box) ::
      (q.copy ++ [jumpTo second (jumpArgs.map q.naming.value)])) := h.ops'
  have hlabel : (c'.unit u').ops.toList = (labelAt first (inputs.map .box) :: (body ++ q.moves)) ++ labelAt second (q.names.map .box) ::
      (q.copy ++ [jumpTo second (jumpArgs.map q.naming.value)]) := by
    rw [hmoves]
    simp
  obtain ⟨t, hthrough, ht⟩ := Run.through_moves hm _ hmoves s' ha.inside'
  have hat := (Run.ops_at hlabel).1
  rw [List.length_cons, List.length_append] at hat
  rw [h.advance_back]
  have hpc : (labelAt first (inputs.map .box) :: body).length + q.moves.length = body.length + q.moves.length + 1 := by
    simp
    omega
  have hstep : Run.advance c' i ⟨u', body.length + 1 + q.moves.length⟩ t = .ok (.next ⟨u', body.length + q.moves.length + 2⟩) t := by
    rw [Nat.add_right_comm]
    exact Run.advance_label hat
  refine .next (k := q.moves.length) (Nat.le_refl _) hthrough hstep ?_
  rw [Nat.sub_self]
  refine h.sides_next ha (ht.apart gs s ha.apart ha.idle) (fun x v hx => ?_) ?_
  · rcases hm.of_mem hx with rfl | ⟨-, -, v, rfl⟩
    · -- a box is its own name, and nothing has happened to it
      have hx' := h.closes x (List.of_mem_zip hx).2
      obtain ⟨w, e, e'⟩ := ha.agrees x hx'
      refine ⟨w, e, ?_⟩
      rw [Renaming.value_nil] at e'
      rw [← e', Exec.resolve, Exec.resolve, ht.old x (h.boxes x hx')]
    · refine ⟨.const v, rfl, ?_⟩
      rw [Exec.resolve, ht.new x v hx]
      rfl
  · rcases h.settles with hboxes | hsettles
    · have hnone : q.moves = [] := by
        rw [← List.length_eq_zero_iff, hm.length_moves, List.countP_eq_zero]
        intro v hv
        simp [hboxes v hv]
      rw [ht.same hnone]
      exact .inl ho
    · exact .inr hsettles

theorem follows_back (hknown : known = defined inputs body) (ha : Abreast gs i known q.naming s s')
    (ho : (s'.frame i).overflow = (s.frame i).overflow ∨ Settles body) (hcopy : q.copy.length = body.length) :
    Follows c' u u' gs i inputs body q 0 ⟨u', body.length + q.moves.length + 2 + body.length⟩ s' (Run.advance c i ⟨u, body.length + 1⟩ s) := by
  subst hknown
  obtain ⟨m, hm⟩ := h.materialized
  have hlabel : (c'.unit u').ops.toList = (labelAt first (inputs.map .box) :: (body ++ q.moves)) ++ labelAt second (q.names.map .box) ::
      (q.copy ++ [jumpTo second (jumpArgs.map q.naming.value)]) := by
    rw [h.ops', Parts.ops]
    simp
  have hjump : (c'.unit u').ops.toList = (labelAt first (inputs.map .box) :: (body ++ (q.moves ++ labelAt second (q.names.map .box) :: q.copy))) ++
      jumpTo second (jumpArgs.map q.naming.value) :: [] := by
    rw [h.ops', Parts.ops]
    simp
  have hat := (Run.ops_at hlabel).1
  rw [List.length_cons, List.length_append] at hat
  have hpc : body.length + q.moves.length + 2 + body.length =
      (labelAt first (inputs.map .box) :: (body ++ (q.moves ++ labelAt second (q.names.map .box) :: q.copy))).length := by
    simp [hcopy]
    omega
  have hstep := Run.advance_jump (i := i) (s := s') (Run.ops_at hjump).1 h.label' hat
  rw [← hpc] at hstep
  rw [h.advance_back]
  refine .next (k := 0) (Nat.le_refl _) (.here _ _) hstep ?_
  have hx := ha.apart.here
  have hapart : Apart gs i s (s'.updateFrame i fun f =>
      { f with env := Run.bind f.env q.names ((jumpArgs.map q.naming.value).map (Exec.resolve f)) }) :=
    ha.apart.updateRight ⟨hx.token, hx.exc, hx.forced, hx.saved, hx.descr, hx.pending⟩
  refine h.sides_next ha hapart (fun x v hxv => ?_) ?_
  · have hv := (List.of_mem_zip hxv).2
    obtain ⟨w, e, e'⟩ := ha.agrees.resolve (v := v) fun b hb => h.closes b (hb ▸ hv)
    refine ⟨w, e, ?_⟩
    -- a name that is there twice stands for the same argument twice
    have hunique : ∀ v', (x, v') ∈ q.names.zip jumpArgs → v' = v := fun v' hv' =>
      hm.unique (Nat.le_refl n) (fun b hb => h.boxes b (h.closes b hb)) hv' hxv
    have hbound := Run.lookup_zip_of_unique (fun v => Exec.resolve (s'.frame i) (q.naming.value v)) hxv hunique
    rw [Store.frame_updateFrame ha.inside', Exec.resolve, Run.getElem?_bind, List.map_map]
    change ((Option.or (List.lookup x (q.names.zip (jumpArgs.map fun v => Exec.resolve (s'.frame i) (q.naming.value v))).reverse) _).getD _) = _
    rw [hbound, e']
    rfl
  · rw [Store.frame_updateFrame ha.inside']
    exact ho

section

variable (hs : Sides u u' gs i inputs body q behind p s p' s')
include hs

/-- The second run follows each step of the first one. -/
theorem follows : Follows c' u u' gs i inputs body q behind p' s' (Run.advance c i p s) := by
  cases hs with
  | @first known done rest s s' hbody hknown hs ha ho =>
    cases rest with
    | cons op rest => exact h.follows_first hbody hknown hs ha ho
    | nil =>
      rw [List.append_nil] at hbody
      subst hbody
      exact h.follows_cross hknown ha ho
  | @later known r done rest done' rest' s s' hbody hcopy hlen hknown ht ha ho =>
    cases ht with
    | cons head tail => exact h.follows_later hbody hcopy hlen hknown (.cons head tail) ha ho
    | nil =>
      rw [List.append_nil] at hbody hcopy
      subst hbody
      exact h.follows_back hknown ha (ho.imp_right And.left) (hcopy ▸ hlen)

/-! ## Runs -/

/-- Where the first run leaves, the second one leaves too, with at most the steps that it is behind. -/
theorem run_forward {t : Store} (hr : Run.run c i k p s = .ok ⟨⟩ t) :
    ∃ t', Run.run c' i (k + behind) p' s' = .ok ⟨⟩ t' ∧ SameExit i body q.copy t t' := by
  induction k generalizing behind p s p' s' with
  | zero => cases hr
  | succ k ih =>
    have hf := h.follows hs
    generalize hx : Run.advance c i p s = x at hf
    cases hf with
    | error ha =>
      rw [Run.run_of_error hx] at hr
      cases hr
    | exit ha hexit =>
      rw [Run.run_of_exit hx] at hr
      cases hr
      exact ⟨_, by rw [Nat.add_right_comm, Run.run_of_exit ha], hexit⟩
    | @next d p₂ q' s₂ t₁ t₂ hd ht ha hs₂ =>
      rw [Run.run_of_next hx] at hr
      obtain ⟨t', hr', hexit⟩ := ih hs₂ hr
      refine ⟨t', ?_, hexit⟩
      have hgo := Run.run_through ht (k + (behind - d) + 1)
      rw [Run.run_of_next ha, hr'] at hgo
      rw [← hgo]
      congr 1
      omega

/-- Where the second run leaves, the first one leaves too. -/
theorem run_backward {t' : Store} (hr : Run.run c' i k p' s' = .ok ⟨⟩ t') : ∃ t, Run.run c i k p s = .ok ⟨⟩ t ∧ SameExit i body q.copy t t' := by
  induction k using Nat.strongRecOn generalizing behind p s p' s' with
  | ind k ih =>
    cases k with
    | zero => cases hr
    | succ k =>
      have hf := h.follows hs
      generalize hx : Run.advance c i p s = x at hf
      cases hf with
      | error ha =>
        rw [Run.run_of_error ha] at hr
        cases hr
      | exit ha hexit =>
        rw [Run.run_of_exit ha] at hr
        cases hr
        exact ⟨_, by rw [Run.run_of_exit hx], hexit⟩
      | @next d p₂ q' s₂ t₁ t₂ hd ht ha hs₂ =>
        have hlt := Run.lt_of_run_through ht hr
        obtain ⟨l, rfl⟩ : ∃ l, k = l + d := ⟨k - d, by omega⟩
        have hgo := Run.run_through ht (l + 1)
        rw [Run.run_of_next ha, show l + 1 + (p'.pc + d - p'.pc) = l + d + 1 by omega, hr] at hgo
        obtain ⟨t, hr', hexit⟩ := ih l (by omega) hs₂ hgo.symm
        refine ⟨t, ?_, hexit⟩
        rw [Run.run_of_next hx]
        exact Run.run_mono (Nat.le_add_right l d) hr'

end

end

end Loaded

end Side

end FlowCompiler.Trace.Peel
