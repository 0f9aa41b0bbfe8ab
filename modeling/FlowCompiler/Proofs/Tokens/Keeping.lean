import FlowCompiler.Proofs.Growth
import FlowCompiler.Trace.Optimize.Force

/-!
# Loops and labels are kept

The optimizer works on a store, but it touches neither loops nor labels there: whatever it does with the store is making boxes and
objects, executing operations, and noting the resume data of guards.
-/

namespace FlowCompiler.Trace

open Option

variable {ε σ V α β γ : Type}

/-- Executing leads to a later store, which has the same loops and labels. -/
theorem Extending.keeps {m : EStateM ε Store α} (h : Extending m) : Keeps Store.tokens m := by
  refine ⟨fun s => ?_⟩
  cases e : m s with
  | ok a s' => exact after_of_ok e ▸ ((h s).1 a s' e).tokens
  | error f s' => exact after_of_error e ▸ ((h s).2 f s' e).tokens

instance (code : Opcode) (descr : Option Descr) (args : List Value) : Keeps Store.tokens (execute code descr args) :=
  (Extending.execute code descr args).keeps

instance (b : Behaviour) (args : List Const) : Keeps Store.tokens (Exec.behave b args) := (Extending.behave b args).keeps

instance (cs : List Int) (unicode : Bool) : Keeps Store.tokens (Store.intern cs unicode) := (Extending.intern cs unicode).keeps

instance (k : Kind) : Keeps Store.tokens (Store.newBox k) := .besideGet fun _ => rfl

instance (code : Opcode) : Keeps Store.tokens (Store.newGuard code) := .besideGet fun _ => rfl

def OptimizeState.tokens (s : OptimizeState) : Array Cell × Array Target := s.store.tokens

/-- A step of the optimizer touches neither loops nor labels. -/
abbrev KeepsTokens (m : OptimizeM α) : Prop := Keeps OptimizeState.tokens m

/-! ## What is known while optimizing -/

/-- A step of the optimizer leaves what is seen of a state. -/
abbrev Leaves (view : OptimizeState → V) (m : OptimizeM α) : Prop := Keeps view m

/-- What is seen of a state depends on the store and on what was written out, not on what is known. -/
class Unknowing (view : OptimizeState → V) : Prop where
  same : ∀ {s s'}, s'.store = s.store → s'.out = s.out → view s' = view s

instance : Unknowing OptimizeState.tokens := ⟨fun h _ => congrArg Store.tokens h⟩

instance : Unknowing OptimizeState.out := ⟨fun _ h => h⟩

namespace Keeps

variable {i j : InfoId} {b : BoundId} {v : Value}

instance onStore {m : StoreM α} [h : Keeps Store.tokens m] : KeepsTokens (.onStore m) := by
  refine ⟨fun s => ?_⟩
  have kept := h.kept s.store
  unfold after at kept
  unfold after OptimizeM.onStore EStateM.run
  dsimp only
  cases e : m s.store <;> rw [e] at kept <;> exact kept

instance onExec {m : ExecM α} [h : Keeps Store.tokens m] : KeepsTokens (.onExec m) := by
  refine ⟨fun s => ?_⟩
  have kept := h.kept s.store
  unfold after at kept
  unfold after OptimizeM.onExec EStateM.run
  dsimp only
  cases e : m s.store <;> rw [e] at kept <;> exact kept

section

variable {view : OptimizeState → V} [Unknowing view] {limits : OptimizeState → Limits} {remembersPure : OptimizeState → Bool}
  {table : OptimizeState → CallTable}
  {ids : OptimizeState → Std.HashMap Value InfoId} {infos : OptimizeState → Array Info} {bounds : OptimizeState → Array Bound}
  {producers : OptimizeState → Std.HashMap Box Op} {bools : OptimizeState → Std.HashSet InfoId}
  {pending : OptimizeState → List (Pending (Option Value))} {watches : OptimizeState → List Nat} {written : OptimizeState →
  Std.HashMap Nat (List Value)} {tags : OptimizeState → Nat} {lastBounds lastString lastPure lastHeap : OptimizeState → Last}
  {invariants : OptimizeState → List (InfoId × InfoId)} {pureOps : OptimizeState → Std.HashMap PureKey InfoId} {postponed : OptimizeState → Option Op}
  {heap : OptimizeState → HeapCache} {lastLabel : OptimizeState → Option TargetId} {result : OptimizeState → α}

/-- A step that changes what is known.  Every change of the state of the optimizer has this form, but for what writes out. -/
instance elsewhere : Leaves view (modify fun s : OptimizeState =>
    ⟨s.store, limits s, remembersPure s, table s, ids s, infos s, bounds s, producers s, bools s, s.out, pending s, watches s, written s,
      tags s, lastBounds s, lastString s, lastPure s, lastHeap s, invariants s, pureOps s, postponed s, heap s, lastLabel s⟩) :=
  .beside fun _ => Unknowing.same rfl rfl

instance elsewhereGet : Leaves view (modifyGet fun s : OptimizeState =>
    (result s, ⟨s.store, limits s, remembersPure s, table s, ids s, infos s, bounds s, producers s, bools s, s.out, pending s, watches s, written s,
      tags s, lastBounds s, lastString s, lastPure s, lastHeap s, invariants s, pureOps s, postponed s, heap s, lastLabel s⟩)) :=
  .besideGet fun _ => Unknowing.same rfl rfl

end

instance writing {out : OptimizeState → Array (Op × Option ResumeData)} : KeepsTokens (modify fun s : OptimizeState => { s with out := out s }) :=
  .beside fun _ => rfl

section

variable {view : OptimizeState → V} [Unknowing view]

instance invalid (reason : String) : Leaves view (.invalid reason : OptimizeM α) := throw _

instance update (f : Info → Info) : Leaves view (.update i f) := by
  unfold OptimizeM.update
  infer_instance

instance newBound (c : Bound) : Leaves view (.newBound c) := by
  unfold OptimizeM.newBound
  infer_instance

instance newInfo (x : Info) : Leaves view (.newInfo x) := by
  unfold OptimizeM.newInfo
  infer_instance

instance info : Leaves view (.info i) := bind

instance describe : Leaves view (.describe v) := by
  unfold OptimizeM.describe
  split <;> infer_instance

instance idOf : Leaves view (.idOf v) := by
  refine seq fun s => ?_
  split
  · infer_instance
  · cases v.key? <;> infer_instance

instance infoOf : Leaves view (.infoOf v) := bind

instance resultId (op : Op) : Leaves view (.resultId op) := inferInstanceAs (Leaves view (.idOf _))

instance constIntOf : Leaves view (.constIntOf v) := bind

instance setEqual (r : Option Box) : Leaves view (.setEqual r i) := by
  cases r <;> (unfold OptimizeM.setEqual; infer_instance)

instance becomeConst (c : Option Value) : Leaves view (.becomeConst i c) := by
  refine seq fun _ => ?_
  split <;> infer_instance

instance setConst (r : Option Box) (c : Option Value) : Leaves view (.setConst r c) := by
  unfold OptimizeM.setConst
  cases r with
  | none => infer_instance
  | some r =>
    have replaced : Leaves view (match c with
      | some c => do .setEqual (some r) (← .idOf c)
      | none => Pure.pure ()) := by cases c <;> infer_instance
    refine seq fun s => ?_
    split
    · exact ite
    · exact replaced

instance setConstInt (r : Option Box) (n : Int64) : Leaves view (.setConstInt r n) := inferInstanceAs (Leaves view (.setConst _ _))

instance sameValue : Leaves view (.sameValue i j) := ite

instance ensureNonNull : Leaves view (.ensureNonNull i) := inferInstanceAs (Leaves view (.update _ _))

instance classOfConst? (x : Info) : Leaves view (.classOfConst? x) := bind

instance getBound : Leaves view (.getBound b) := bind

instance boundId : Leaves view (.boundId i) := by
  refine seq fun x => ?_
  cases x.bound <;> infer_instance

instance boundOf : Leaves view (.boundOf i) := bind

instance lenId : Leaves view (.lenId i) := by
  refine seq fun x => ?_
  cases x.len <;> infer_instance

instance tighten (f : Bound → Bound × Bool) : Leaves view (.tighten b f) := bind

instance lengthAbove (n : Int64) : Leaves view (.lengthAbove i n) := bind

instance tagged (op : Op) : Leaves view (.tagged op) := by
  unfold OptimizeM.tagged
  infer_instance

instance current (op : Op) : Leaves view (.current op) := by
  refine ite (g := seq fun s => ?_)
  split <;> infer_instance

section

variable (code : Opcode) (args : List Value) (descr : Option Descr)

instance pureKey? : Leaves view (.pureKey? code args descr) := ite

instance rememberPure : Leaves view (.rememberPure code args v) := by
  refine seq fun s => ite (h := seq fun k => ?_)
  cases k <;> infer_instance

instance recallPure : Leaves view (.recallPure code args descr) := by
  refine seq fun s => ite (h := seq fun k => ?_)
  cases k <;> infer_instance

instance allConst? : Leaves view (.allConst? args) := by
  induction args with
  | nil => exact pure _
  | cons a rest ih =>
    refine seq fun x => ?_
    split <;> infer_instance

end

end

instance newBox (k : Kind) : KeepsTokens (OptimizeM.newBox k) := inferInstanceAs (KeepsTokens (OptimizeM.onStore _))

instance fold? (op : Op) : KeepsTokens (OptimizeM.fold? op) := by
  refine ite (g := seq fun args => ?_)
  cases args with
  | none => infer_instance
  | some args =>
    refine seq fun r => ?_
    split <;> infer_instance

/-! ## Allocating virtual objects

Allocating a virtual object gives operations on, so whatever it keeps is also kept by the place that they are given on to. -/

section

variable (emit : Emit) [giving : ∀ op, KeepsTokens (emit op)] {m : OptimizeM.StringMode}

/-! ### Lengths and characters -/

theorem intAdd {e : Option Emit} (h : ∀ f ∈ e, ∀ op, KeepsTokens (f op)) (a b : Value) : KeepsTokens (.intAdd e a b) := by
  refine ite (g := ite (g := ?_))
  split
  · infer_instance
  · infer_instance
  · have := h _ rfl
    infer_instance

instance addLengths (a b : Value) : KeepsTokens (.addLengths emit a b) := by
  have := intAdd (e := some emit) (fun f hf => some.inj hf ▸ giving) a b
  exact inferInstanceAs (KeepsTokens (_ >>= _))

instance subLengths (a b : Value) : KeepsTokens (.subLengths emit a b) := by
  refine ite (g := ?_)
  split <;> infer_instance

instance readChar (str index : Value) (result : Option Box) : KeepsTokens (.readChar emit m str index result) := by
  refine seq fun s => ?_
  split
  · infer_instance
  · cases result <;> infer_instance

instance copyChars (src target first place : Value) (n : Nat) : KeepsTokens (.copyChars emit m src target n first place) := by
  induction n generalizing first place with
  | zero => exact pure _
  | succ n ih =>
    unfold OptimizeM.copyChars
    infer_instance

instance copyContent (src target first place length : Value) (needsEnd : Bool) :
    KeepsTokens (.copyContent emit m src target first place length needsEnd) := by
  have sum := intAdd (e := some emit) (fun f hf => some.inj hf ▸ giving) place length
  have whole : KeepsTokens (OptimizeM.copyContent.copyAll emit m src target first place length needsEnd) := ite
  unfold OptimizeM.copyContent OptimizeM.unrollLimit
  refine seq fun limit => ?_
  split <;> infer_instance

instance depth : KeepsTokens .depth := bind

instance knownString? (i : InfoId) : KeepsTokens (.knownString? i) := bind

/-! ### Allocation -/

/-- What the functions that allocate keep, up to a depth.  They call each other with one less. -/
structure Allocates (emit : Emit) (n : Nat) : Prop where
  force : ∀ i, KeepsTokens (OptimizeM.forceAux emit n i)
  allocate : ∀ i key v, KeepsTokens (OptimizeM.allocate emit n i key v)
  virtualLength : ∀ e : Option Emit, (∀ f ∈ e, f = emit) → ∀ i v, KeepsTokens (OptimizeM.virtualLength e n i v)
  stringLength : ∀ e : Option Emit, (∀ f ∈ e, f = emit) → ∀ m r i, KeepsTokens (OptimizeM.stringLengthAux e m r n i)
  copyString : ∀ m i target place, KeepsTokens (OptimizeM.copyString emit m n i target place)
  copyWhole : ∀ m i target place, KeepsTokens (OptimizeM.copyWhole emit m n i target place)
  fillString : ∀ v target place, KeepsTokens (OptimizeM.fillString emit n v target place)

namespace Allocates

variable {emit} {n : Nat}

omit giving in
theorem zero : Allocates emit 0 where
  force _ := throw _
  allocate _ _ _ := throw _
  virtualLength _ _ _ _ := pure _
  stringLength _ _ _ _ _ := pure _
  copyString _ _ _ _ := pure _
  copyWhole _ _ _ _ := pure _
  fillString _ _ _ := pure _

variable (ih : Allocates emit n)

include ih

omit giving in
theorem force_succ (i : InfoId) : KeepsTokens (.forceAux emit (n + 1) i) := by
  have := ih.allocate
  refine seq fun x => ?_
  split
  · infer_instance
  · cases x.virt <;> infer_instance

/-- What becomes of a string: a constant, or a new string that is filled. -/
theorem allocate_string (i : InfoId) (key : Value) (v : Virtual) (u : Bool) : KeepsTokens (do
    let d ← OptimizeM.depth
    match OptimizeM.constString?.virtualString? (← MonadState.get) d v with
    | some cs => do
      let r ← .onStore (Store.intern cs u)
      .becomeConst i (some (.ofRef r))
    | none => do
      let m : OptimizeM.StringMode := ⟨u⟩
      .update i fun x => { x with box := some key }
      let length := (← .virtualLength (some emit) n i v).getD default
      emit { code := m.newstr, args := [length], result := key.box? }
      let _ ← .fillString emit n v key OptimizeM.zero) := by
  have := ih.fillString
  have := ih.virtualLength (some emit) (fun f hf => (some.inj hf).symm) i v
  refine seq fun d => seq fun s => ?_
  split <;> infer_instance

set_option synthInstance.maxSize 1000 in
theorem allocate_succ (i : InfoId) (key : Value) (v : Virtual) : KeepsTokens (.allocate emit (n + 1) i key v) := by
  have := ih.force
  unfold OptimizeM.allocate
  cases v with
  | struct size cls fields =>
    refine seq fun _ => ?_
    split <;> infer_instance
  | array d items clear =>
    infer_instance
  | plain u chars => exact ih.allocate_string i key _ u
  | concat u l r length => exact ih.allocate_string i key _ u
  | slice u str start length => exact ih.allocate_string i key _ u

omit giving in
theorem virtualLength_succ (e : Option Emit) (he : ∀ f ∈ e, f = emit) (i : InfoId) (v : Virtual)
    (adding : ∀ a b, KeepsTokens (.intAdd e a b)) : KeepsTokens (.virtualLength e (n + 1) i v) := by
  have := ih.stringLength e he
  unfold OptimizeM.virtualLength
  cases v with
  | concat u l r length =>
    cases length with
    | some len => infer_instance
    | none =>
      refine seq fun a => ?_
      cases a with
      | none => infer_instance
      | some a =>
        refine seq fun b => ?_
        cases b <;> infer_instance
  | _ => infer_instance

theorem stringLength_succ (e : Option Emit) (he : ∀ f ∈ e, f = emit) (m : OptimizeM.StringMode) (r : Option Box) (i : InfoId) :
    KeepsTokens (.stringLengthAux e m r (n + 1) i) := by
  have := ih.force
  have := ih.virtualLength e he
  refine seq fun known => ?_
  cases known with
  | some cs => infer_instance
  | none =>
    refine seq fun x => ?_
    dsimp only
    split
    · infer_instance
    · cases e with
      | none => infer_instance
      | some f =>
        cases he f rfl
        cases r <;> infer_instance

omit giving in
theorem copyString_succ (m : OptimizeM.StringMode) (i : InfoId) (target place : Value) : KeepsTokens (.copyString emit m (n + 1) i target place) := by
  have := ih.copyWhole
  have := ih.fillString
  refine seq fun x => ?_
  split <;> infer_instance

theorem copyWhole_succ (m : OptimizeM.StringMode) (i : InfoId) (target place : Value) : KeepsTokens (.copyWhole emit m (n + 1) i target place) := by
  have := ih.force
  have := ih.stringLength (some emit) (fun f hf => (some.inj hf).symm)
  unfold OptimizeM.copyWhole
  infer_instance

theorem fillString_succ (v : Virtual) (target place : Value) : KeepsTokens (.fillString emit (n + 1) v target place) := by
  have := ih.force
  have := ih.copyString
  unfold OptimizeM.fillString
  cases v with
  | plain u chars =>
    refine bind (h := forIn (h := fun c place => ?_))
    cases c <;> infer_instance
  | _ => infer_instance

end Allocates

theorem allocates (n : Nat) : Allocates emit n := by
  induction n with
  | zero => exact .zero
  | succ n ih =>
    refine ⟨ih.force_succ, ih.allocate_succ, fun e he i v => ih.virtualLength_succ e he i v ?_, ih.stringLength_succ, ih.copyString_succ,
      ih.copyWhole_succ, ih.fillString_succ⟩
    exact intAdd fun f hf => he f hf ▸ giving

instance force (i : InfoId) : KeepsTokens (.force emit i) := bind (g := fun n => (allocates emit n).force i)

instance stringLength (i : InfoId) (result : Option Box) : KeepsTokens (.stringLength emit m i result) := by
  have length (n : Nat) := (allocates emit n).stringLength (some emit) (fun f hf => (some.inj hf).symm) m result i
  unfold OptimizeM.stringLength
  infer_instance

instance stringLength? (i : InfoId) : KeepsTokens (.stringLength? m i) := by
  have length (n : Nat) := (allocates (fun _ => Pure.pure ()) n).stringLength none (fun f hf => by cases hf) m none i
  unfold OptimizeM.stringLength?
  infer_instance

end

end Keeps
end FlowCompiler.Trace
